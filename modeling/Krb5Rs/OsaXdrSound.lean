import Krb5Rs.OsaXdr

/-!
# The kadm5 data read back

What `encode` writes, `decode` reads, as long as the password history is within
the reader's limits. A second key field that is empty is lost from version 1
keys and supplied for version 2 keys.
-/

namespace Krb5Rs

theorem toInt32_toInt16 {v : Int32} (h : -2 ^ 15 ≤ v.toInt ∧ v.toInt < 2 ^ 15) : v.toInt16.toInt32 = v := by
  apply Int32.toInt_inj.mp
  rw [Int16.toInt_toInt32, Int32.toInt_toInt16]
  exact Int.bmod_eq_of_le (by simpa using h.1) (by simpa using h.2)

namespace Osa

open Wire (Bytes Reads CodesAs take fail times writeAll bind_eq_ok bind_apply bind_of_ok be)

/-! ## Words -/

variable {n : Nat} {bs v bytes rest : Bytes} {osa : OsaPrincipalData} {keys : List KeyData} {message : String}

theorem reads_be (h : n < 2 ^ 32) : Reads u32 (be 4 n) (UInt32.ofNat n) := by
  have := (Wire.reads_take_of_length truncated (Wire.be_length 4 n)).map fun b => UInt32.ofNat (Wire.ofBe b)
  rwa [Wire.ofBe_be 4 n (by simpa using h)] at this

theorem reads_u32 (v : UInt32) : Reads u32 (writeU32 v) v := by
  have := reads_be v.toNat_lt
  rwa [UInt32.ofNat_toNat] at this

theorem reads_i32 (v : Int32) : Reads i32 (writeU32 v.toUInt32) v := by
  have := (reads_u32 v.toUInt32).map (·.toInt32)
  rwa [Int32.toInt32_toUInt32] at this

theorem writeLen_eq_ok (h : writeLen n message = .ok bs) : n < 2 ^ 32 ∧ bs = be 4 n := by
  unfold writeLen at h
  split at h
  · rename_i hn
    exact ⟨hn, (Except.ok.inj h).symm⟩
  · cases h

/-! ## Byte strings -/

theorem reads_xdrBytes (h : v.length < 2 ^ 32) : Reads xdrBytes (be 4 v.length ++ padded v) v := by
  refine (reads_be h).bind ?_
  rw [UInt32.toNat_ofNat_of_lt' h]
  refine (Wire.reads_take truncated v).bind ?_
  exact (Wire.reads_take_of_length truncated (List.length_replicate (n := padding v.length))).map fun _ => v

theorem codes_writeXdrBytes (v : Bytes) : CodesAs writeXdrBytes xdrBytes v v := by
  intro bs hbs
  obtain ⟨len, hlen, hbs⟩ := bind_eq_ok.mp hbs
  obtain ⟨hn, rfl⟩ := writeLen_eq_ok hlen
  cases hbs
  exact reads_xdrBytes hn

theorem codes_writeNullstring (policy : Option Bytes) : CodesAs writeNullstring nullstring policy policy := by
  intro bs hbs
  cases policy with
  | none =>
    cases hbs
    exact (reads_xdrBytes (v := []) (by decide)).bind (Wire.reads_pure none)
  | some value =>
    rw [writeNullstring] at hbs
    split at hbs
    case isTrue => cases hbs
    case isFalse hzero =>
      obtain ⟨len, hlen, hbs⟩ := bind_eq_ok.mp hbs
      obtain ⟨hn, rfl⟩ := writeLen_eq_ok hlen
      cases hbs
      have hlength : (value ++ [0]).length = value.length + 1 := by simp
      have hread := reads_xdrBytes (v := value ++ [0]) (hlength ▸ hn)
      rw [hlength] at hread
      intro rest
      have hok : ¬ ((value ++ [0]).getLast? ≠ some 0 ∨ (0 : UInt8) ∈ (value ++ [0]).dropLast) := by
        simp [hzero]
      unfold nullstring
      rw [bind_of_ok (hread rest), if_neg (by simp), if_neg hok]
      simp

/-! ## The history -/

def readBack (key : KeyData) : KeyData :=
  match key.fields with
  | [] => key
  | first :: _ =>
    { key with
      fields := first ::
        if key.ver = 2 ∨ (secondField key.fields).1 ≠ 0 ∨ (secondField key.fields).2 ≠ [] then
          [secondField key.fields]
        else [] }

theorem len16_eq_ok {v : UInt32} (h : len16 n message = .ok v) : n < 2 ^ 16 ∧ v = UInt32.ofNat n := by
  unfold len16 at h
  split at h
  · rename_i hn
    exact ⟨hn, (Except.ok.inj h).symm⟩
  · cases h

theorem inI16_toInt32 (v : Int16) : inI16 v.toInt32 := by
  have hlo := v.le_toInt
  have hhi := v.toInt_lt
  unfold inI16
  rw [Int16.toInt_toInt32]
  exact ⟨hlo, hhi⟩

theorem version_spec {ver : UInt16} (h : 1 ≤ ver ∧ ver ≤ 2) :
    (1 ≤ ver.toUInt32.toInt32.toInt ∧ ver.toUInt32.toInt32.toInt ≤ 2) ∧
      (ver.toUInt32.toInt32 = 2 ↔ ver = 2) ∧ ver.toUInt32.toInt32.toUInt32.toUInt16 = ver := by
  have hcases : ver = 1 ∨ ver = 2 := by
    have h1 := UInt16.le_iff_toNat_le.mp h.1
    have h2 := UInt16.le_iff_toNat_le.mp h.2
    have hnat : ver.toNat = 1 ∨ ver.toNat = 2 := by
      have e1 : (1 : UInt16).toNat = 1 := rfl
      have e2 : (2 : UInt16).toNat = 2 := rfl
      omega
    exact hnat.imp (fun hk => UInt16.toNat_inj.mp hk) (fun hk => UInt16.toNat_inj.mp hk)
  rcases hcases with rfl | rfl <;> decide

theorem codes_writeHistoryKey (key : KeyData) : CodesAs writeHistoryKey historyKey key (readBack key) := by
  intro bs hbs
  unfold writeHistoryKey at hbs
  unfold readBack
  cases hfields : key.fields with
  | nil =>
    rw [hfields] at hbs
    cases hbs
  | cons first others =>
    rw [hfields] at hbs
    dsimp only at hbs ⊢
    split at hbs
    case isTrue => cases hbs
    case isFalse hlimits =>
      simp only [not_or, Decidable.not_not] at hlimits
      simp only [bind_eq_ok] at hbs
      obtain ⟨len0, hlen0, len1, hlen1, data0, hdata0, data1, hdata1, hbs⟩ := hbs
      cases hbs
      obtain ⟨hn0, rfl⟩ := len16_eq_ok hlen0
      obtain ⟨hn1, rfl⟩ := len16_eq_ok hlen1
      obtain ⟨hver, htwo, hback⟩ := version_spec hlimits.1
      generalize hs : secondField (first :: others) = second at *
      intro rest
      have hread0 := codes_writeXdrBytes first.2 data0 hdata0
      have hread1 := codes_writeXdrBytes second.2 data1 hdata1
      have hreadVer := reads_i32 key.ver.toUInt32.toInt32
      rw [UInt32.toUInt32_toInt32] at hreadVer
      have hkvno : key.kvno.toUInt32.toNat < 2 ^ 16 := by simpa using key.kvno.toNat_lt
      have hlen0 : (UInt32.ofNat first.2.length).toNat = first.2.length := UInt32.toNat_ofNat_of_lt' (Nat.lt_trans hn0 (by decide))
      have hlen1 : (UInt32.ofNat second.2.length).toNat = second.2.length := UInt32.toNat_ofNat_of_lt' (Nat.lt_trans hn1 (by decide))
      have hgood : ¬ (2 ^ 16 ≤ key.kvno.toUInt32.toNat ∨ ¬ inI16 first.1.toInt32 ∨ ¬ inI16 second.1.toInt32 ∨
          2 ^ 16 ≤ (UInt32.ofNat first.2.length).toNat ∨ 2 ^ 16 ≤ (UInt32.ofNat second.2.length).toNat ∨
          first.2.length ≠ (UInt32.ofNat first.2.length).toNat ∨
          second.2.length ≠ (UInt32.ofNat second.2.length).toNat) := by
        have hf := inI16_toInt32 first.1
        have hg := inI16_toInt32 second.1
        rw [hlen0, hlen1]
        simp only [hf, hg, not_true_eq_false, ne_eq, or_false, false_or]
        omega
      have hzero : second.1.toInt32 = 0 ↔ second.1 = 0 :=
        ⟨fun h => Int16.toInt_inj.mp (by simpa using congrArg Int32.toInt h), fun h => by rw [h]; rfl⟩
      unfold historyKey
      simp only [List.append_assoc]
      rw [bind_of_ok (hreadVer _), if_neg (not_not.mpr hver), bind_of_ok (reads_u32 key.kvno.toUInt32 _),
        bind_of_ok (reads_i32 first.1.toInt32 _), bind_of_ok (reads_i32 second.1.toInt32 _),
        bind_of_ok (reads_u32 (UInt32.ofNat first.2.length) _),
        bind_of_ok (reads_u32 (UInt32.ofNat second.2.length) _), bind_of_ok (hread0 _), bind_of_ok (hread1 _),
        if_neg hgood]
      simp [htwo, hzero]

def WithinLimits (history : List (List KeyData)) : Prop :=
  history.length ≤ 1000000 ∧ ∀ keys ∈ history, keys.length ≤ 1000000

theorem codes_writeHistoryEntry (h : keys.length ≤ 1000000) :
    CodesAs writeHistoryEntry historyEntry keys (keys.map readBack) := by
  intro bs hbs
  obtain ⟨len, hlen, hbs⟩ := bind_eq_ok.mp hbs
  obtain ⟨items, hitems, hbs⟩ := bind_eq_ok.mp hbs
  obtain ⟨hn, rfl⟩ := writeLen_eq_ok hlen
  cases hbs
  refine (reads_be hn).bind ?_
  rw [UInt32.toNat_ofNat_of_lt' hn, if_neg (by omega)]
  exact Wire.codesAs_writeAll (fun key _ => codes_writeHistoryKey key) items hitems

theorem decode_encode (h : WithinLimits osa.oldKeys) (hb : encode osa = .ok bytes) :
    decode bytes = .ok { osa with oldKeys := osa.oldKeys.map (·.map readBack) } := by
  simp only [encode, bind_eq_ok] at hb
  obtain ⟨policy, hpolicy, len, hlen, items, hitems, hb⟩ := hb
  obtain ⟨hn, rfl⟩ := writeLen_eq_ok hlen
  cases hb
  have hhistory : Reads history (be 4 osa.oldKeys.length ++ items) (osa.oldKeys.map (·.map readBack)) := by
    refine (reads_be hn).bind ?_
    rw [UInt32.toNat_ofNat_of_lt' hn, if_neg (by have := h.1; omega)]
    exact Wire.codesAs_writeAll (fun keys hk => codes_writeHistoryEntry (h.2 keys hk)) items hitems
  have hread : Reads principalData _ { osa with oldKeys := osa.oldKeys.map (·.map readBack) } :=
    (reads_u32 osaAdbPrincVersion1).bind ((codes_writeNullstring _ policy hpolicy).bind
      ((reads_i32 _).bind ((reads_u32 _).bind ((reads_u32 _).bind (hhistory.map fun oldKeys =>
        { osa with oldKeys })))))
  have hall := hread []
  rw [List.append_nil] at hall
  rw [decode, hall]
  rfl

theorem length_of_historyEntry (h : historyEntry bs = .ok (keys, rest)) : keys.length ≤ 1000000 := by
  obtain ⟨⟨count, rest₁⟩, -, h⟩ := bind_eq_ok.mp h
  dsimp only at h
  split at h
  · cases h
  · have := (Wire.times_eq_ok h).1
    omega

theorem withinLimits_of_history {oldKeys : List (List KeyData)}
    (h : history bs = .ok (oldKeys, rest)) : WithinLimits oldKeys := by
  obtain ⟨⟨entries, rest₁⟩, -, h⟩ := bind_eq_ok.mp h
  dsimp only at h
  split at h
  · cases h
  obtain ⟨hlen, hall⟩ := Wire.times_eq_ok h
  refine ⟨by omega, ?_⟩
  intro keys hk
  obtain ⟨bs, rest, hread⟩ := hall keys hk
  exact length_of_historyEntry hread

theorem withinLimits_of_decode (h : decode bytes = .ok osa) : WithinLimits osa.oldKeys := by
  obtain ⟨⟨data, rest⟩, hdata, h⟩ := bind_eq_ok.mp h
  dsimp only at h
  split at h
  · cases h
  cases h
  obtain ⟨⟨version, rest₁⟩, -, hdata⟩ := bind_eq_ok.mp hdata
  dsimp only at hdata
  split at hdata
  · cases hdata
  obtain ⟨⟨policy, rest₂⟩, -, hdata⟩ := bind_eq_ok.mp hdata
  obtain ⟨⟨aux, rest₃⟩, -, hdata⟩ := bind_eq_ok.mp hdata
  obtain ⟨⟨next, rest₄⟩, -, hdata⟩ := bind_eq_ok.mp hdata
  obtain ⟨⟨kvno, rest₅⟩, -, hdata⟩ := bind_eq_ok.mp hdata
  obtain ⟨⟨oldKeys, rest₆⟩, hhistory, hdata⟩ := bind_eq_ok.mp hdata
  obtain ⟨rfl, -⟩ := Prod.mk.inj (Except.ok.inj hdata)
  exact withinLimits_of_history hhistory

/-! ## Written again -/

/-- The padding behind an XDR byte string. -/
def bytesPadding : XdrReader Bytes := do
  let len ← u32
  let _ ← take truncated len.toNat
  take truncated (padding len.toNat)

def keyPadding : XdrReader Bytes := do
  let _ ← u32
  let _ ← u32
  let _ ← u32
  let _ ← u32
  let _ ← u32
  let _ ← u32
  let first ← bytesPadding
  let second ← bytesPadding
  pure (first ++ second)

def listPadding (item : XdrReader Bytes) : XdrReader Bytes := do
  let count ← u32
  let items ← times item count.toNat
  pure items.flatten

def dataPadding : XdrReader Bytes := do
  let _ ← u32
  let policy ← bytesPadding
  let _ ← u32
  let _ ← u32
  let _ ← u32
  let history ← listPadding (listPadding keyPadding)
  pure (policy ++ history)

/-- The padding bytes that a reader of `bytes` skips are zero. -/
def ZeroPadded (bytes : Bytes) : Prop :=
  ∀ pads rest, dataPadding bytes = .ok (pads, rest) → ∀ b ∈ pads, b = 0

/-- What `r` reads, `w` writes as the bytes it was read from, if what `pads` finds in them is zero. -/
def RestoresPadded {α : Type} (w : α → Except StoreError Bytes) (r : XdrReader α) (pads : XdrReader Bytes) : Prop :=
  ∀ bs a rest, r bs = .ok (a, rest) → ∃ pad used, pads bs = .ok (pad, rest) ∧ bs = used ++ rest ∧
    ((∀ b ∈ pad, b = 0) → w a = .ok used)

variable {rest : Bytes} {α : Type} {w : α → Except StoreError Bytes} {r : XdrReader α} {pads : XdrReader Bytes}
  {key : KeyData}

theorem u32_eq_ok {v : UInt32} (h : u32 bs = .ok (v, rest)) : bs = writeU32 v ++ rest := by
  obtain ⟨⟨data, rest'⟩, hdata, h⟩ := bind_eq_ok.mp h
  cases h
  obtain ⟨hlen, rfl⟩ := Wire.take_eq_ok hdata
  have hlt := Wire.ofLe_lt data.reverse
  have hback := Wire.le_ofLe data.reverse
  rw [List.length_reverse, hlen] at hlt hback
  rw [writeU32, Wire.ofBe, UInt32.toNat_ofNat_of_lt' hlt, be, hback, List.reverse_reverse]

theorem i32_eq_ok {v : Int32} (h : i32 bs = .ok (v, rest)) : u32 bs = .ok (v.toUInt32, rest) := by
  obtain ⟨⟨word, rest'⟩, hword, h⟩ := bind_eq_ok.mp h
  cases h
  rw [hword, UInt32.toUInt32_toInt32]

theorem xdrBytes_eq_ok (h : xdrBytes bs = .ok (v, rest)) :
    ∃ pad, bytesPadding bs = .ok (pad, rest) ∧ v.length < 2 ^ 32 ∧ pad.length = padding v.length ∧
      bs = be 4 v.length ++ (v ++ pad) ++ rest := by
  obtain ⟨⟨len, rest₁⟩, hlen, h⟩ := bind_eq_ok.mp h
  obtain ⟨⟨data, rest₂⟩, hdata, h⟩ := bind_eq_ok.mp h
  obtain ⟨⟨pad, rest₃⟩, hpad, h⟩ := bind_eq_ok.mp h
  cases h
  obtain ⟨hcount, hrest₁⟩ := Wire.take_eq_ok hdata
  obtain ⟨hpadding, hrest₂⟩ := Wire.take_eq_ok hpad
  refine ⟨pad, ?_, hcount ▸ len.toNat_lt, by rw [hpadding, hcount], ?_⟩
  · rw [bytesPadding, bind_of_ok hlen, bind_of_ok hdata, hpad]
  · rw [u32_eq_ok hlen, hrest₁, hrest₂, hcount, writeU32]
    simp only [List.append_assoc]

theorem eq_padded {pad : Bytes} (hlen : pad.length = padding v.length) (h : ∀ b ∈ pad, b = 0) : v ++ pad = padded v := by
  rw [padded, ← hlen]
  exact congrArg (v ++ ·) (List.eq_replicate_of_mem h)

theorem restores_xdrBytes : RestoresPadded writeXdrBytes xdrBytes bytesPadding := by
  intro bs v rest h
  obtain ⟨pad, hpads, hlt, hlen, hbs⟩ := xdrBytes_eq_ok h
  refine ⟨pad, _, hpads, hbs, fun hzero => ?_⟩
  rw [writeXdrBytes, writeLen, if_pos hlt, eq_padded hlen hzero]
  rfl

theorem restores_nullstring : RestoresPadded writeNullstring nullstring bytesPadding := by
  intro bs policy rest h
  obtain ⟨⟨v, rest'⟩, hv, h⟩ := bind_eq_ok.mp h
  obtain ⟨pad, hpads, hlt, hlen, hbs⟩ := xdrBytes_eq_ok hv
  dsimp only at h
  split at h
  case isTrue hnil =>
    cases h
    subst hnil
    obtain rfl := List.length_eq_zero_iff.mp hlen
    exact ⟨[], _, hpads, hbs, fun _ => rfl⟩
  case isFalse hne =>
    split at h
    case isTrue => cases h
    case isFalse hgood =>
      cases h
      rw [not_or, Classical.not_not] at hgood
      obtain ⟨hlast, hzero⟩ := hgood
      have hv : v.dropLast ++ [0] = v := List.dropLast_append_getLast? 0 hlast
      refine ⟨pad, _, hpads, hbs, fun hzeros => ?_⟩
      have hcount : v.dropLast.length + 1 = v.length := by rw [← List.length_concat, List.concat_eq_append, hv]
      rw [writeNullstring, if_neg hzero, hcount, hv, writeLen, if_pos hlt, eq_padded hlen hzeros]
      rfl

theorem writeHistoryKey_eq {ver kvno : UInt16} {first : Int16 × Bytes} {rest : List (Int16 × Bytes)}
    {data0 data1 : Bytes} (hver : 1 ≤ ver ∧ ver ≤ 2) (hrest : rest.length ≤ 1) (hlen0 : first.2.length < 2 ^ 16)
    (hlen1 : (secondField (first :: rest)).2.length < 2 ^ 16) (hdata0 : writeXdrBytes first.2 = .ok data0)
    (hdata1 : writeXdrBytes (secondField (first :: rest)).2 = .ok data1) :
    writeHistoryKey ⟨ver, kvno, first :: rest⟩ = .ok (writeU32 ver.toUInt32 ++ (writeU32 kvno.toUInt32 ++
      (writeU32 first.1.toInt32.toUInt32 ++ (writeU32 (secondField (first :: rest)).1.toInt32.toUInt32 ++
      (writeU32 (UInt32.ofNat first.2.length) ++ (writeU32 (UInt32.ofNat (secondField (first :: rest)).2.length) ++
      (data0 ++ data1))))))) := by
  have hfew : ¬ (¬ (1 ≤ ver ∧ ver ≤ 2) ∨ 2 < (first :: rest).length) := by
    rw [not_or, Classical.not_not]
    exact ⟨hver, Nat.not_lt.mpr (Nat.succ_le_succ hrest)⟩
  unfold writeHistoryKey
  dsimp only
  rw [if_neg hfew, len16, len16, if_pos hlen0, if_pos hlen1, hdata0, hdata1]
  rfl

theorem version_eq {ver : Int32} (h : 1 ≤ ver.toInt ∧ ver.toInt ≤ 2) : ver = 1 ∨ ver = 2 := by
  have hcases : ver.toInt = 1 ∨ ver.toInt = 2 := by omega
  exact hcases.imp (fun h => Int32.toInt_inj.mp h) fun h => Int32.toInt_inj.mp h

theorem restores_historyKey : RestoresPadded writeHistoryKey historyKey keyPadding := by
  intro bs key rest h
  obtain ⟨⟨ver, rest₁⟩, hver, h⟩ := bind_eq_ok.mp h
  dsimp only at h
  split at h
  case isTrue => cases h
  case isFalse hversion =>
    obtain ⟨⟨kvno, rest₂⟩, hkvno, h⟩ := bind_eq_ok.mp h
    obtain ⟨⟨kind0, rest₃⟩, hkind0, h⟩ := bind_eq_ok.mp h
    obtain ⟨⟨kind1, rest₄⟩, hkind1, h⟩ := bind_eq_ok.mp h
    obtain ⟨⟨len0, rest₅⟩, hlen0, h⟩ := bind_eq_ok.mp h
    obtain ⟨⟨len1, rest₆⟩, hlen1, h⟩ := bind_eq_ok.mp h
    obtain ⟨⟨bytes0, rest₇⟩, hbytes0, h⟩ := bind_eq_ok.mp h
    obtain ⟨⟨bytes1, rest₈⟩, hbytes1, h⟩ := bind_eq_ok.mp h
    dsimp only at h
    split at h
    case isTrue => cases h
    case isFalse hgood =>
      cases h
      simp only [not_or, Nat.not_le, Classical.not_not] at hgood hversion
      obtain ⟨hkvno', hfits0, hfits1, hlt0, hlt1, hcount0, hcount1⟩ := hgood
      obtain ⟨pad0, used0, hpads0, hrest₆, hwrite0⟩ := restores_xdrBytes _ _ _ hbytes0
      obtain ⟨pad1, used1, hpads1, hrest₇, hwrite1⟩ := restores_xdrBytes _ _ _ hbytes1
      refine ⟨pad0 ++ pad1, writeU32 ver.toUInt32 ++ (writeU32 kvno ++ (writeU32 kind0.toUInt32 ++
        (writeU32 kind1.toUInt32 ++ (writeU32 len0 ++ (writeU32 len1 ++ (used0 ++ used1)))))), ?_, ?_, fun hzero => ?_⟩
      · rw [keyPadding, bind_of_ok (i32_eq_ok hver), bind_of_ok hkvno, bind_of_ok (i32_eq_ok hkind0),
          bind_of_ok (i32_eq_ok hkind1), bind_of_ok hlen0, bind_of_ok hlen1, bind_of_ok hpads0, bind_of_ok hpads1]
        rfl
      · rw [u32_eq_ok (i32_eq_ok hver), u32_eq_ok hkvno, u32_eq_ok (i32_eq_ok hkind0), u32_eq_ok (i32_eq_ok hkind1),
          u32_eq_ok hlen0, u32_eq_ok hlen1, hrest₆, hrest₇]
        simp only [List.append_assoc]
      · simp only [List.mem_append, or_imp, forall_and] at hzero
        have hsecond : secondField ((kind0.toInt16, bytes0) ::
            if ver = 2 ∨ kind1 ≠ 0 ∨ bytes1 ≠ [] then [(kind1.toInt16, bytes1)] else []) = (kind1.toInt16, bytes1) := by
          split
          case isTrue => rfl
          case isFalse hnone =>
            simp only [not_or, Classical.not_not] at hnone
            rw [hnone.2.1, hnone.2.2]
            rfl
        have hkeyVer : (1 ≤ ver.toUInt32.toUInt16 ∧ ver.toUInt32.toUInt16 ≤ 2) ∧
            ver.toUInt32.toUInt16.toUInt32 = ver.toUInt32 := by
          rcases version_eq hversion with rfl | rfl <;> decide
        have hkvno : kvno.toUInt16.toUInt32 = kvno := by
          apply UInt32.toNat_inj.mp
          simpa using hkvno'
        rw [writeHistoryKey_eq hkeyVer.1 (by split <;> simp) (hcount0 ▸ hlt0) (by rw [hsecond, hcount1]; exact hlt1)
          (hwrite0 hzero.1) (by rw [hsecond]; exact hwrite1 hzero.2), hsecond]
        dsimp only
        rw [hcount0, hcount1, UInt32.ofNat_toNat, UInt32.ofNat_toNat, hkeyVer.2, hkvno, toInt32_toInt16 hfits0,
          toInt32_toInt16 hfits1]

theorem RestoresPadded.times (h : RestoresPadded w r pads) (n : Nat) :
    RestoresPadded (writeAll w) (times r n) (do let items ← times pads n; pure items.flatten) := by
  induction n with
  | zero =>
    intro bs l rest hl
    cases hl
    exact ⟨[], [], rfl, rfl, fun _ => rfl⟩
  | succ n ih =>
    intro bs l rest hl
    obtain ⟨⟨a, rest₁⟩, ha, hl⟩ := bind_eq_ok.mp hl
    obtain ⟨⟨as, rest₂⟩, has, hl⟩ := bind_eq_ok.mp hl
    cases hl
    obtain ⟨pad₁, used₁, hpads₁, rfl, hw₁⟩ := h bs a rest₁ ha
    obtain ⟨pad₂, used₂, hpads₂, rfl, hw₂⟩ := ih rest₁ as rest has
    obtain ⟨⟨items, rest₃⟩, hitems, hpads₂⟩ := bind_eq_ok.mp hpads₂
    cases hpads₂
    refine ⟨pad₁ ++ items.flatten, used₁ ++ used₂, ?_, (List.append_assoc ..).symm, fun hzero => ?_⟩
    · rw [Wire.times, bind_apply, bind_of_ok hpads₁, bind_of_ok hitems]
      rfl
    · simp only [List.mem_append, or_imp, forall_and] at hzero
      rw [writeAll, hw₁ hzero.1, hw₂ hzero.2]
      rfl

theorem RestoresPadded.counted (h : RestoresPadded w r pads) (message message' : String) : RestoresPadded (fun l => do
        let len ← writeLen l.length message
        let items ← writeAll w l
        .ok (len ++ items))
      (do
        let count ← u32
        if 1000000 < count.toNat then fail (.corrupt message') else Wire.times r count.toNat) (listPadding pads) := by
  intro bs l rest hl
  obtain ⟨⟨count, rest₁⟩, hcount, hl⟩ := bind_eq_ok.mp hl
  dsimp only at hl
  split at hl
  · cases hl
  obtain ⟨pad, used, hpads, rfl, hwrite⟩ := h.times count.toNat rest₁ l rest hl
  refine ⟨pad, writeU32 count ++ used, ?_, ?_, fun hzero => ?_⟩
  · rw [listPadding, bind_of_ok hcount]
    exact hpads
  · rw [u32_eq_ok hcount, List.append_assoc]
  · dsimp only
    rw [(Wire.times_eq_ok hl).1, writeLen, if_pos count.toNat_lt, hwrite hzero]
    rfl

theorem encode_decode (h : decode bytes = .ok osa) (hzero : ZeroPadded bytes) : encode osa = .ok bytes := by
  obtain ⟨⟨data, rest⟩, hdata, h⟩ := bind_eq_ok.mp h
  dsimp only at h
  split at h
  · cases h
  rename_i hrest
  cases h
  obtain rfl : rest = [] := Classical.not_not.mp hrest
  obtain ⟨⟨version, rest₁⟩, hversion, hdata⟩ := bind_eq_ok.mp hdata
  dsimp only at hdata
  split at hdata
  · cases hdata
  rename_i hsame
  obtain ⟨⟨policy, rest₂⟩, hpolicy, hdata⟩ := bind_eq_ok.mp hdata
  obtain ⟨⟨aux, rest₃⟩, haux, hdata⟩ := bind_eq_ok.mp hdata
  obtain ⟨⟨next, rest₄⟩, hnext, hdata⟩ := bind_eq_ok.mp hdata
  obtain ⟨⟨kvno, rest₅⟩, hkvno, hdata⟩ := bind_eq_ok.mp hdata
  obtain ⟨⟨oldKeys, rest₆⟩, hhistory, hdata⟩ := bind_eq_ok.mp hdata
  cases hdata
  obtain ⟨pad, used, hpads, hrest₁, hwrite⟩ := restores_nullstring _ _ _ hpolicy
  have hentry : RestoresPadded writeHistoryEntry historyEntry (listPadding keyPadding) :=
    restores_historyKey.counted _ _
  obtain ⟨pad', used', hpads', hrest₅, hwrite'⟩ :=
    hentry.counted "too many KADM_DATA password-history entries" _ _ _ _ hhistory
  have hall : dataPadding bytes = .ok (pad ++ pad', []) := by
    rw [dataPadding, bind_of_ok hversion, bind_of_ok hpads, bind_of_ok (i32_eq_ok haux), bind_of_ok hnext,
      bind_of_ok hkvno, bind_of_ok hpads']
    rfl
  have hzero := hzero _ _ hall
  simp only [List.mem_append, or_imp, forall_and] at hzero
  obtain ⟨len, hlen, hwrite'⟩ := bind_eq_ok.mp (hwrite' hzero.2)
  obtain ⟨items, hitems, hwrite'⟩ := bind_eq_ok.mp hwrite'
  cases hwrite'
  rw [encode, hwrite hzero.1]
  refine bind_eq_ok.mpr ⟨_, rfl, bind_eq_ok.mpr ⟨len, hlen, bind_eq_ok.mpr ⟨items, hitems, ?_⟩⟩⟩
  rw [u32_eq_ok hversion, hrest₁, u32_eq_ok (i32_eq_ok haux), u32_eq_ok hnext, u32_eq_ok hkvno, hrest₅,
    Classical.not_not.mp hsame, List.append_nil]

structure PlainKey (key : KeyData) : Prop where
  shape : key.ver = 1 ∧ key.fields.length = 1 ∨ key.ver = 2 ∧ key.fields.length = 2
  short : ∀ field ∈ key.fields, field.2.length < 65536

structure Plain (osa : OsaPrincipalData) : Prop where
  policy : ∀ name, osa.policy = some name → 0 ∉ name ∧ name.length + 1 < 2 ^ 32
  keys : ∀ keys ∈ osa.oldKeys, ∀ key ∈ keys, PlainKey key
  limits : WithinLimits osa.oldKeys

theorem writeXdrBytes_ok (h : v.length < 2 ^ 16) : ∃ bs, writeXdrBytes v = .ok bs := by
  rw [writeXdrBytes, writeLen, if_pos (by omega)]
  exact ⟨_, rfl⟩

theorem PlainKey.readBack (h : PlainKey key) : readBack key = key := by
  obtain ⟨ver, kvno, fields⟩ := key
  rcases h.shape with ⟨rfl, hlen⟩ | ⟨rfl, hlen⟩
  · obtain ⟨first, rfl⟩ := List.length_eq_one_iff.mp hlen
    rfl
  · obtain ⟨first, second, rfl⟩ := List.length_eq_two.mp hlen
    rfl

theorem PlainKey.writeHistoryKey_ok (h : PlainKey key) : ∃ bs, writeHistoryKey key = .ok bs := by
  obtain ⟨ver, kvno, fields⟩ := key
  rcases h.shape with ⟨rfl, hlen⟩ | ⟨rfl, hlen⟩
  · obtain ⟨first, rfl⟩ := List.length_eq_one_iff.mp hlen
    have hshort := h.short first (by simp)
    obtain ⟨data, hdata⟩ := writeXdrBytes_ok hshort
    exact ⟨_, writeHistoryKey_eq (by decide) (by simp) hshort (Nat.zero_lt_succ _) hdata rfl⟩
  · obtain ⟨first, second, rfl⟩ := List.length_eq_two.mp hlen
    have hshort := h.short first (by simp)
    have hshort' := h.short second (by simp)
    obtain ⟨data, hdata⟩ := writeXdrBytes_ok hshort
    obtain ⟨data', hdata'⟩ := writeXdrBytes_ok hshort'
    exact ⟨_, writeHistoryKey_eq (by decide) (by simp) hshort hshort' hdata hdata'⟩

theorem Plain.encode_ok (h : Plain osa) : ∃ bytes, encode osa = .ok bytes := by
  have hpolicy : ∃ bs, writeNullstring osa.policy = .ok bs := by
    cases hname : osa.policy with
    | none => exact ⟨_, rfl⟩
    | some name =>
      obtain ⟨hzero, hlen⟩ := h.policy name hname
      rw [writeNullstring, if_neg hzero, writeLen, if_pos hlen]
      exact ⟨_, rfl⟩
  have hentry : ∀ keys ∈ osa.oldKeys, ∃ bs, writeHistoryEntry keys = .ok bs := by
    intro keys hkeys
    obtain ⟨items, hitems⟩ := Wire.writeAll_ok fun key hkey => (h.keys keys hkeys key hkey).writeHistoryKey_ok
    have := h.limits.2 keys hkeys
    rw [writeHistoryEntry, writeLen, if_pos (by omega), hitems]
    exact ⟨_, rfl⟩
  obtain ⟨policy, hpolicy⟩ := hpolicy
  obtain ⟨history, hhistory⟩ := Wire.writeAll_ok hentry
  have := h.limits.1
  rw [encode, hpolicy, writeLen, if_pos (by omega), hhistory]
  exact ⟨_, rfl⟩

/-- Plain data is read back as it was written, and what is read from bytes whose padding is zero is
written as those bytes. -/
theorem kadm_data_inverted : (∀ osa, Plain osa → ∃ bytes, encode osa = .ok bytes ∧ decode bytes = .ok osa) ∧
      ∀ bytes osa, ZeroPadded bytes → decode bytes = .ok osa → encode osa = .ok bytes := by
  refine ⟨fun osa h => ?_, fun bytes osa hzero h => encode_decode h hzero⟩
  obtain ⟨bytes, hbytes⟩ := h.encode_ok
  refine ⟨bytes, hbytes, ?_⟩
  have hsame : osa.oldKeys.map (·.map readBack) = osa.oldKeys := by
    conv_rhs => rw [← List.map_id osa.oldKeys]
    refine List.map_congr_left fun keys hkeys => ?_
    conv_rhs => rw [id, ← List.map_id keys]
    exact List.map_congr_left fun key hkey => (h.keys keys hkeys key hkey).readBack
  rw [decode_encode h.limits hbytes, hsame]

def changedOnce : OsaPrincipalData :=
  { policy := some [112], oldKeys := [[⟨1, 1, [(18, [1, 2])]⟩, ⟨2, 1, [(17, [3]), (0, [])]⟩]] }

def changedOnceBytes : Bytes := ((encode changedOnce).toOption).getD []

theorem changedOnce_inverted : (∃ bytes, encode changedOnce = .ok bytes ∧ decode bytes = .ok changedOnce) ∧
      encode changedOnce = .ok changedOnceBytes := by
  have hdecode : decode changedOnceBytes = .ok changedOnce := by decide +kernel
  have hpads : dataPadding changedOnceBytes = .ok (List.replicate 7 0, []) := by decide +kernel
  refine ⟨kadm_data_inverted.1 _ ⟨?_, ?_, by decide, by decide⟩, kadm_data_inverted.2 _ _ ?_ hdecode⟩
  · intro name hname
    cases hname
    decide
  · intro keys hkeys key hkey
    obtain rfl := List.mem_singleton.mp hkeys
    rcases List.mem_pair.mp hkey with rfl | rfl
    · exact ⟨.inl ⟨rfl, rfl⟩, by decide⟩
    · exact ⟨.inr ⟨rfl, rfl⟩, by decide⟩
  · intro pads rest h
    cases hpads.symm.trans h
    exact fun b hb => List.eq_of_mem_replicate hb

theorem long_policy_refused : ∃ n, n + 1 = 2 ^ 32 ∧
    encode { policy := some (List.replicate n 97) } = .error (.corrupt "KADM_DATA policy name too long") := by
  obtain ⟨n, hn⟩ : ∃ n, n + 1 = 2 ^ 32 := ⟨_, rfl⟩
  have hzero : (0 : UInt8) ∉ List.replicate n 97 := fun h => absurd (List.eq_of_mem_replicate h) (by decide)
  refine ⟨n, hn, ?_⟩
  rw [encode, writeNullstring, if_neg hzero, writeLen, if_neg (by rw [List.length_replicate]; omega)]
  rfl

end Osa

end Krb5Rs
