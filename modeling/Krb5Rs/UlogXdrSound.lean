import Krb5Rs.UlogXdr

/-!
# Updates read back from XDR

What the writer produces for an update the reader turns back into it, provided
no `Extension` takes the number of a known attribute. No shorter piece of it reads
as an update, and bytes behind it are ignored.
-/

namespace Krb5Rs

open Wire (Bytes Reads Codes Oblivious remaining bind_eq_ok bind_apply oblivious_pure oblivious_fail oblivious_take exists_of_isOk)

namespace Iprop

/-! ## Words -/

theorem putU32_length (v : UInt32) : (putU32 v).length = 4 := by
  simp [putU32]

theorem reads_getU32_be {n : Nat} (h : n < 2 ^ 32) : Reads getU32 (Wire.be 4 n) (UInt32.ofNat n) := by
  have := (Wire.reads_take_of_length (conv "truncated") (Wire.be_length 4 n)).map
    fun b => UInt32.ofNat (Wire.ofBe b)
  rwa [Wire.ofBe_be 4 n (by simpa using h)] at this

theorem reads_getU32 (v : UInt32) : Reads getU32 (putU32 v) v := by
  have := reads_getU32_be v.toNat_lt
  rwa [UInt32.ofNat_toNat] at this

theorem reads_getI32 (v : Int32) : Reads getI32 (putI32 v) v := by
  have := (reads_getU32 v.toUInt32).map (·.toInt32)
  rwa [Int32.toInt32_toUInt32] at this

theorem reads_getBool (b : Bool) : Reads getBool (putBool b) b := by
  have := (reads_getU32 (if b then 1 else 0)).map fun v => decide (v ≠ 0)
  cases b <;> exact this

theorem reads_getI16 (v : Int16) : Reads getI16 (putI32 v.toInt32) v := by
  intro rest
  have hlo := v.le_toInt
  have hhi := v.toInt_lt
  have hv := Int16.toInt_toInt32 v
  show (getI32 >>= _) _ = _
  rw [bind_apply, reads_getI32]
  simp only [hv]
  rw [if_pos ⟨by simpa using hlo, by simpa using hhi⟩]
  simp

/-! ## Arrays -/

theorem codes_putOpaque (v : Bytes) : Codes 4 putOpaque getOpaque v := by
  intro bs hbs
  simp only [putOpaque, putLen, bind_eq_ok] at hbs
  obtain ⟨len, hlen, hcat⟩ := hbs
  split at hlen
  case isFalse => cases hlen
  case isTrue h =>
    cases hlen
    cases hcat
    refine ⟨(reads_getU32_be h).bind ?_, by simp⟩
    rw [UInt32.toNat_ofNat_of_lt' h]
    refine (Wire.reads_take (conv "truncated") v).bind ?_
    exact (Wire.reads_take_of_length (conv "truncated")
      (List.length_replicate (n := padding v.length))).map fun _ => v

theorem codes_putArray {α : Type} {w : α → Except StoreError Bytes} {r : XdrReader α} {l : List α}
    (h : ∀ a ∈ l, Codes 4 w r a) : Codes 4 (putArray w) (getArray r) l := by
  intro bs hbs
  simp only [putArray, putLen, bind_eq_ok] at hbs
  obtain ⟨len, hlen, items, hitems, hcat⟩ := hbs
  split at hlen
  case isFalse => cases hlen
  case isTrue hn =>
    cases hlen
    cases hcat
    obtain ⟨hr, hl⟩ := Wire.codes_writeAll h items hitems
    refine ⟨?_, by simp⟩
    intro rest
    have hcount : getCount (Wire.be 4 l.length ++ (items ++ rest)) = .ok (l.length, items ++ rest) := by
      show (getU32 >>= _) _ = _
      rw [bind_apply, reads_getU32_be hn]
      have hle : ¬ (items ++ rest).length / 4 < l.length := by
        simp only [List.length_append]
        omega
      simp only [bind_apply, remaining, UInt32.toNat_ofNat_of_lt' hn, if_neg hle, Wire.pure_apply]
    show (getCount >>= _) _ = _
    rw [bind_apply, List.append_assoc, hcount]
    exact hr rest

theorem codes_putI32 (v : Int32) : Codes 4 (fun e => (.ok (putI32 e) : Except StoreError Bytes)) getI32 v := by
  intro bs hbs
  cases hbs
  exact ⟨reads_getI32 v, by simp [putI32, putU32]⟩

theorem codes_putKey (k : Key) : Codes 4 putKey getKey k := by
  intro bs hbs
  simp only [putKey, bind_eq_ok] at hbs
  obtain ⟨enctypes, he, contents, hc, hcat⟩ := hbs
  cases hcat
  obtain ⟨hre, -⟩ := codes_putArray (fun e _ => codes_putI32 e) enctypes he
  obtain ⟨hrc, -⟩ := codes_putArray (fun c _ => codes_putOpaque c) contents hc
  exact ⟨(reads_getI32 _).bind ((reads_getI32 _).bind (hre.bind (hrc.map _))), by simp [putI32, putU32]⟩

theorem codes_putKeys (keys : List Key) : Codes 4 putKeys getKeys keys :=
  codes_putArray fun k _ => codes_putKey k

theorem codes_putComponent (c : Int32 × Bytes) : Codes 4 putComponent getComponent c := by
  intro bs hbs
  simp only [putComponent, bind_eq_ok] at hbs
  obtain ⟨data, hd, hcat⟩ := hbs
  cases hcat
  obtain ⟨hrd, -⟩ := codes_putOpaque _ data hd
  exact ⟨(reads_getI32 _).bind (hrd.map _), by simp [putI32, putU32]⟩

theorem codes_putPrinc (p : Princ) : Codes 4 putPrinc getPrinc p := by
  intro bs hbs
  simp only [putPrinc, bind_eq_ok] at hbs
  obtain ⟨realm, hr, components, hc, hcat⟩ := hbs
  cases hcat
  obtain ⟨hrr, hlr⟩ := codes_putOpaque _ realm hr
  obtain ⟨hrc, -⟩ := codes_putArray (fun c _ => codes_putComponent c) components hc
  exact ⟨hrr.bind (hrc.bind ((reads_getI32 _).map _)), by simp; omega⟩

theorem codes_putTl (t : Tl) : Codes 4 putTl getTl t := by
  intro bs hbs
  simp only [putTl, bind_eq_ok] at hbs
  obtain ⟨data, hd, hcat⟩ := hbs
  cases hcat
  obtain ⟨hrd, -⟩ := codes_putOpaque _ data hd
  exact ⟨(reads_getI16 _).bind (hrd.map _), by simp [putI32, putU32]⟩

/-! ## Values and updates -/

def Value.Distinct : Value → Prop
  | .extension t _ => t.toInt < 0 ∨ 19 < t.toInt
  | _ => True

def Update.Distinct (u : Update) : Prop := ∀ v ∈ u.values, v.Distinct

theorem getBody_extension {t : Int32} (h : t.toInt < 0 ∨ 19 < t.toInt) :
    getBody t = (getOpaque >>= fun s => pure (.extension t s)) := by
  unfold getBody
  split <;> first | rfl | omega

theorem codes_putBody {v : Value} (hd : v.Distinct) : Codes 4 Value.putBody (getBody v.attrType) v := by
  intro bs hbs
  cases v with
  | attrFlags x | maxLife x | maxRenewLife x | exp x | pwExp x | lastSuccess x | lastFailed x
  | failAuthCount x | modTime x | pwLastChange x | pwHistKvno x =>
    cases hbs
    exact ⟨(reads_getU32 x).map _, by simp [putU32]⟩
  | princ p | modPrinc p =>
    obtain ⟨hr, hl⟩ := codes_putPrinc p bs hbs
    exact ⟨hr.map _, hl⟩
  | keyData keys =>
    obtain ⟨hr, hl⟩ := codes_putKeys keys bs hbs
    exact ⟨hr.map _, hl⟩
  | tlData tls =>
    obtain ⟨hr, hl⟩ := codes_putArray (fun t _ => codes_putTl t) bs hbs
    exact ⟨hr.map _, hl⟩
  | len x =>
    cases hbs
    exact ⟨(reads_getI16 x).map _, by simp [putI32, putU32]⟩
  | modWhere s | pwPolicy s =>
    obtain ⟨hr, hl⟩ := codes_putOpaque s bs hbs
    exact ⟨hr.map _, hl⟩
  | pwPolicySwitch b =>
    cases hbs
    exact ⟨(reads_getBool b).map _, by simp [putBool, putU32]⟩
  | pwHist hist =>
    obtain ⟨hr, hl⟩ := codes_putArray (fun k _ => codes_putKeys k) bs hbs
    exact ⟨hr.map _, hl⟩
  | extension t s =>
    obtain ⟨hr, hl⟩ := codes_putOpaque s bs hbs
    refine ⟨?_, hl⟩
    show Reads (getBody t) bs _
    rw [getBody_extension hd]
    exact hr.map _

theorem codes_putValue {v : Value} (hd : v.Distinct) : Codes 4 putValue getValue v := by
  intro bs hbs
  simp only [putValue, bind_eq_ok] at hbs
  obtain ⟨body, hb, hcat⟩ := hbs
  cases hcat
  obtain ⟨hr, -⟩ := codes_putBody hd body hb
  exact ⟨(reads_getI32 _).bind hr, by simp [putI32, putU32]⟩

theorem reads_getTime (t : Time) : Reads getTime (putTime t) t :=
  (reads_getU32 t.seconds).bind ((reads_getU32 t.useconds).map _)

theorem codes_encode {u : Update} (hd : u.Distinct) : Codes 4 Update.encode getUpdate u := by
  intro bs hbs
  simp only [Update.encode, bind_eq_ok] at hbs
  obtain ⟨name, hn, values, hv, kdcs, hk, futures, hf, hcat⟩ := hbs
  cases hcat
  obtain ⟨hrn, hln⟩ := codes_putOpaque _ name hn
  obtain ⟨hrv, -⟩ := codes_putArray (fun v hv => codes_putValue (hd v hv)) values hv
  obtain ⟨hrk, -⟩ := codes_putArray (fun c _ => codes_putOpaque c) kdcs hk
  obtain ⟨hrf, -⟩ := codes_putOpaque _ futures hf
  refine ⟨?_, by simp; omega⟩
  exact hrn.bind ((reads_getU32 _).bind ((reads_getTime _).bind (hrv.bind
    ((reads_getBool _).bind ((reads_getBool _).bind (hrk.bind (hrf.map _)))))))

theorem decode_encode {u : Update} (hd : u.Distinct) {bs : Bytes} (h : u.encode = .ok bs) :
    Update.decode bs = .ok u := by
  have := (codes_encode hd bs h).1 []
  rw [List.append_nil] at this
  simp [Update.decode, this, Except.map]

/-! ## Truncated and extended encodings -/

theorem oblivious_getU32 : Oblivious getU32 := (oblivious_take _ 4).map _

theorem oblivious_getI32 : Oblivious getI32 := oblivious_getU32.map _

theorem oblivious_getBool : Oblivious getBool := oblivious_getU32.map _

theorem oblivious_getI16 : Oblivious getI16 := by
  refine oblivious_getI32.bind fun v => ?_
  split
  · exact oblivious_pure _
  · exact oblivious_fail _

theorem oblivious_getCount : Oblivious getCount := by
  refine oblivious_getU32.bind fun n => ?_
  intro bs k rest h more
  rw [bind_apply] at h ⊢
  simp only [remaining, List.length_append] at h ⊢
  split at h
  case isTrue => cases h
  case isFalse hn =>
    cases h
    rw [if_neg (by omega)]
    rfl

theorem oblivious_getOpaque : Oblivious getOpaque :=
  oblivious_getU32.bind fun _ => (oblivious_take _ _).bind fun _ => (oblivious_take _ _).map _

theorem oblivious_getTime : Oblivious getTime := oblivious_getU32.bind fun _ => oblivious_getU32.map _

theorem oblivious_getArray {α : Type} {r : XdrReader α} (hr : Oblivious r) : Oblivious (getArray r) :=
  oblivious_getCount.bind fun n => hr.times n

theorem oblivious_getKey : Oblivious getKey :=
  oblivious_getI32.bind fun _ => oblivious_getI32.bind fun _ => (oblivious_getArray oblivious_getI32).bind fun _ =>
    (oblivious_getArray oblivious_getOpaque).map _

theorem oblivious_getKeys : Oblivious getKeys := oblivious_getArray oblivious_getKey

theorem oblivious_getComponent : Oblivious getComponent :=
  oblivious_getI32.bind fun _ => oblivious_getOpaque.map _

theorem oblivious_getPrinc : Oblivious getPrinc :=
  oblivious_getOpaque.bind fun _ => (oblivious_getArray oblivious_getComponent).bind fun _ => oblivious_getI32.map _

theorem oblivious_getTl : Oblivious getTl := oblivious_getI16.bind fun _ => oblivious_getOpaque.map _

theorem oblivious_getBody (t : Int32) : Oblivious (getBody t) := by
  unfold getBody
  split
  case h_9 | h_13 => exact oblivious_getPrinc.map _
  case h_10 => exact oblivious_getKeys.map _
  case h_11 => exact (oblivious_getArray oblivious_getTl).map _
  case h_12 => exact oblivious_getI16.map _
  case h_15 | h_17 | h_21 => exact oblivious_getOpaque.map _
  case h_18 => exact oblivious_getBool.map _
  case h_20 => exact (oblivious_getArray oblivious_getKeys).map _
  all_goals exact oblivious_getU32.map _

theorem oblivious_getUpdate : Oblivious getUpdate :=
  oblivious_getOpaque.bind fun _ => oblivious_getU32.bind fun _ => oblivious_getTime.bind fun _ =>
    (oblivious_getArray (oblivious_getI32.bind oblivious_getBody)).bind fun _ => oblivious_getBool.bind fun _ =>
      oblivious_getBool.bind fun _ => (oblivious_getArray oblivious_getOpaque).bind fun _ => oblivious_getOpaque.map _

/-- An encoded update decodes to itself, also with bytes behind it, and no shorter piece of it
decodes. -/
theorem update_codec_exact {u : Update} (hd : u.Distinct) {b : Bytes} (h : u.encode = .ok b) :
    Update.decode b = .ok u ∧
      (∀ front, front <+: b → front ≠ b → ∃ e, Update.decode front = .error e) ∧
      ∀ extra, Update.decode (b ++ extra) = .ok u := by
  have hreads := (codes_encode hd b h).1
  refine ⟨decode_encode hd h, ?_, ?_⟩
  · rintro front ⟨back, rfl⟩ hne
    have hall := hreads []
    rw [List.append_nil] at hall
    have hback : back ≠ [] := fun hnil => hne (by rw [hnil, List.append_nil])
    obtain ⟨e, he⟩ := oblivious_getUpdate.not_reads_front hall hback
    exact ⟨e, by rw [Update.decode, he]; rfl⟩
  · intro extra
    rw [Update.decode, hreads extra]
    rfl

def laterUpdate : Update :=
  { princName := [97], sno := 4294967295, time := ⟨1, 2⟩,
    values := [.pwPolicy [], .tlData [⟨-1, [7]⟩], .pwHist [[], [⟨1, 2, [18], [[5]]⟩]], .extension 20 [1, 2, 3]],
    deleted := true, commit := false, kdcsSeenBy := [[]], futures := [] }

theorem laterUpdate_codec_exact : ∃ b, laterUpdate.encode = .ok b ∧ Update.decode b = .ok laterUpdate ∧
    (∀ front, front <+: b → front ≠ b → ∃ e, Update.decode front = .error e) ∧
    ∀ extra, Update.decode (b ++ extra) = .ok laterUpdate := by
  obtain ⟨b, hb⟩ := exists_of_isOk (x := laterUpdate.encode) (by decide +kernel)
  have hd : laterUpdate.Distinct := by
    intro v hv
    simp only [laterUpdate, List.mem_cons, List.not_mem_nil, or_false] at hv
    rcases hv with rfl | rfl | rfl | rfl
    · trivial
    · trivial
    · trivial
    · exact .inr (by decide)
  exact ⟨b, hb, update_codec_exact hd hb⟩

end Iprop

end Krb5Rs
