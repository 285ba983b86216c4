import Krb5Rs.NegToken

/-!
# Negotiation tokens read back

A value is its tag, its length and its contents. `der_taglen` writes every length
as it is read, but `der_value_len` counts at most three bytes for it: a field
whose contents need four is announced too short, and its reader finds less than
it holds.
-/

namespace Krb5Rs

namespace Spnego

open Wire (Bytes ofBe ofLe)
open In (field lenLoop new readLen value)

/-! ## Lengths -/

theorem lenBytes_le (fuel l : Nat) : lenBytes fuel l ≤ fuel := by
  induction fuel generalizing l with
  | zero => exact Nat.le_refl 0
  | succ fuel ih =>
    rw [lenBytes]
    split
    · exact Nat.zero_le _
    · exact Nat.succ_le_succ (ih _)

variable {fuel l len : Nat} {v rest p : Bytes} {tag inner tag' : UInt8} {mechs : List Bytes}
  {mechToken supportedMech mic token : Option Bytes} {state : NegState} {α : Type} (buf : Bytes) (q : Bytes)
  {e : GssError}

theorem lt_pow_lenBytes (h : l < 256 ^ fuel) : l < 256 ^ lenBytes fuel l := by
  induction fuel generalizing l with
  | zero => exact h
  | succ fuel ih =>
    rw [lenBytes]
    split
    case isTrue hzero =>
      rw [hzero]
      decide
    case isFalse =>
      have hdiv : l / 256 < 256 ^ fuel := by
        rw [Nat.div_lt_iff_lt_mul (by decide)]
        rwa [Nat.pow_succ] at h
      have := ih hdiv
      omega

theorem lenBytes_of_lt {k : Nat} (h : l < 256 ^ k) : lenBytes fuel l ≤ k := by
  induction fuel generalizing k l with
  | zero => exact Nat.zero_le k
  | succ fuel ih =>
    rw [lenBytes]
    split
    case isTrue => exact Nat.zero_le k
    case isFalse hpos =>
      cases k with
      | zero =>
        omega
      | succ k =>
        refine Nat.succ_le_succ (ih ?_)
        rw [Nat.div_lt_iff_lt_mul (by decide)]
        rwa [Nat.pow_succ] at h

theorem lenBytes_of_le {k : Nat} (h : 256 ^ k ≤ l) (hfuel : l < 256 ^ fuel) : k < lenBytes fuel l := by
  rcases Nat.lt_or_ge k (lenBytes fuel l) with hlt | hge
  · exact hlt
  · have hlow := lt_pow_lenBytes hfuel
    have hmono : 256 ^ lenBytes fuel l ≤ 256 ^ k := Nat.pow_le_pow_right (by decide) hge
    omega

theorem lenBytes_bounds (hlong : 0x80 ≤ len) (h : len < 2 ^ 64) :
    1 ≤ lenBytes 8 len ∧ lenBytes 8 len ≤ 8 ∧ len < 256 ^ lenBytes 8 len := by
  refine ⟨lenBytes_of_le (k := 0) ?_ ?_, lenBytes_le 8 len, lt_pow_lenBytes ?_⟩
  · rw [Nat.pow_zero]
    omega
  · exact h
  · exact h

theorem derTaglen_length (tag : UInt8) (len : Nat) :
    (derTaglen tag len).length = if len < 0x80 then 2 else 2 + lenBytes 8 len := by
  unfold derTaglen
  split
  · rfl
  · simp only [List.length_cons, Wire.be_length]
    omega

theorem derTaglen_length_le (tag : UInt8) (len : Nat) :
    2 ≤ (derTaglen tag len).length ∧ (derTaglen tag len).length ≤ 10 := by
  have hle := lenBytes_le 8 len
  rw [derTaglen_length]
  split <;> omega

theorem derValueLen_spec (tag : UInt8) (h : len < 2 ^ 64) :
    (len < 2 ^ 24 → derValueLen len = (derTaglen tag len).length + len) ∧
      (2 ^ 24 ≤ len → (derTaglen tag len).length ≤ derValueLen len ∧
        derValueLen len < (derTaglen tag len).length + len) := by
  rw [derTaglen_length]
  unfold derValueLen
  constructor
  · intro hsmall
    split
    case isTrue => omega
    case isFalse hlong =>
      rcases Nat.lt_or_ge len 256 with h1 | h1
      · have hle : lenBytes 8 len ≤ 1 := lenBytes_of_lt (by omega)
        have hlt : 0 < lenBytes 8 len := lenBytes_of_le (by omega) (by omega)
        rw [if_pos (by omega)]
        omega
      · rw [if_neg (by omega)]
        rcases Nat.lt_or_ge len (256 ^ 2) with h2 | h2
        · have hle : lenBytes 8 len ≤ 2 := lenBytes_of_lt h2
          have hlt : 1 < lenBytes 8 len := lenBytes_of_le (by omega) (by omega)
          rw [if_pos (by omega)]
          omega
        · have hle : lenBytes 8 len ≤ 3 := lenBytes_of_lt (by omega)
          have hlt : 2 < lenBytes 8 len := lenBytes_of_le h2 (by omega)
          rw [if_neg (by omega)]
          omega
  · intro hlarge
    have hle := lenBytes_le 8 len
    have hlt : 3 < lenBytes 8 len := lenBytes_of_le (by omega) (by omega)
    rw [if_neg (by omega), if_neg (by omega), if_neg (by omega), if_neg (by omega)]
    omega

/-! ## The cursor -/

theorem ofBe_cons (b : UInt8) (bs : Bytes) : ofBe (b :: bs) = b.toNat * 256 ^ bs.length + ofBe bs := by
  rw [ofBe, List.reverse_cons, Wire.ofLe_append, ofBe, List.length_reverse, Nat.mul_comm b.toNat]
  simp only [ofLe, Nat.mul_zero, Nat.add_zero]
  omega

theorem lenLoop_bytes (bs rest : Bytes) (acc : Nat) (h : acc * 256 ^ bs.length + ofBe bs < 2 ^ 64) :
    lenLoop bs.length acc (bs ++ rest) = .ok (acc * 256 ^ bs.length + ofBe bs, rest) := by
  induction bs generalizing acc with
  | nil => simp [lenLoop, ofBe, ofLe]
  | cons b bs ih =>
    have hsum : acc * 256 ^ (b :: bs).length + ofBe (b :: bs) =
        (acc * 256 + b.toNat) * 256 ^ bs.length + ofBe bs := by
      rw [ofBe_cons, List.length_cons, Nat.pow_succ, Nat.add_mul, Nat.mul_assoc, Nat.mul_comm 256]
      omega
    rw [hsum] at h ⊢
    have hpos : 1 ≤ 256 ^ bs.length := Nat.one_le_pow _ _ (by decide)
    have hle : acc * 256 + b.toNat ≤ (acc * 256 + b.toNat) * 256 ^ bs.length := Nat.le_mul_of_pos_right _ hpos
    rw [List.length_cons, List.cons_append, lenLoop, if_neg (by omega), ih _ h]

theorem lenbyte_spec {n : Nat} (h1 : 1 ≤ n) (h8 : n ≤ 8) :
    ¬ (0x80 ||| UInt8.ofNat n) < 0x80 ∧ ((0x80 ||| UInt8.ofNat n) &&& 0x7f).toNat = n := by
  have hcases : n = 1 ∨ n = 2 ∨ n = 3 ∨ n = 4 ∨ n = 5 ∨ n = 6 ∨ n = 7 ∨ n = 8 := by omega
  rcases hcases with rfl | rfl | rfl | rfl | rfl | rfl | rfl | rfl <;> decide

theorem derTaglen_read (tag : UInt8) (h : len < 2 ^ 64) :
    ∃ lenbyte bytes, derTaglen tag len = tag :: lenbyte :: bytes ∧
      ∀ rest, readLen lenbyte (bytes ++ rest) = .ok (len, rest) := by
  unfold derTaglen
  split
  case isTrue hshort =>
    refine ⟨_, [], rfl, fun rest => ?_⟩
    have hval := UInt8.toNat_ofNat_of_lt' (Nat.lt_trans hshort (by decide))
    have hlt : UInt8.ofNat len < 0x80 := by
      rw [UInt8.lt_iff_toNat_lt, hval]
      exact hshort
    rw [readLen, if_pos hlt, hval]
    rfl
  case isFalse hlong =>
    obtain ⟨h1, h8, hlt⟩ := lenBytes_bounds (Nat.le_of_not_lt hlong) h
    obtain ⟨hbyte, hcount⟩ := lenbyte_spec h1 h8
    refine ⟨_, _, rfl, fun rest => ?_⟩
    have hread := Wire.ofBe_be (lenBytes 8 len) len hlt
    have hloop := lenLoop_bytes (Wire.be (lenBytes 8 len) len) rest 0 (by rw [hread]; omega)
    rw [Wire.be_length, hread, Nat.zero_mul, Nat.zero_add] at hloop
    rw [readLen, if_neg hbyte, hcount, hloop]

def tlv (tag : UInt8) (v : Bytes) : Bytes := derTaglen tag v.length ++ v

theorem value_taglen (tag : UInt8) (h : len < 2 ^ 64) (contents : Bytes) :
    (new (derTaglen tag len ++ contents)).value tag =
      if contents.length < len then (none, ⟨contents, true⟩)
      else (some (contents.take len), ⟨contents.drop len, false⟩) := by
  obtain ⟨lenbyte, bytes, htaglen, hread⟩ := derTaglen_read tag h
  rw [htaglen]
  unfold value new
  rw [if_neg (by simp)]
  simp only [List.cons_append, List.drop_succ_cons, List.drop_zero, hread]

theorem value_tlv (tag : UInt8) (h : v.length < 2 ^ 64) (rest : Bytes) :
    (new (tlv tag v ++ rest)).value tag = (some v, new rest) := by
  rw [tlv, List.append_assoc, value_taglen tag h, if_neg (by simp), List.take_left, List.drop_left]
  rfl

theorem head_tlv (tag : UInt8) (len : Nat) (rest : Bytes) : (derTaglen tag len ++ rest).head? = some tag := by
  unfold derTaglen
  split <;> rfl

theorem value_other {buf : Bytes} (h : buf.head? ≠ some tag) : (new buf).value tag = (none, new buf) := by
  unfold value new
  rw [if_pos (Or.inr h)]

theorem value_bad (tag : UInt8) : value ⟨buf, true⟩ tag = (none, ⟨buf, true⟩) := by
  unfold value
  rw [if_pos (Or.inl rfl)]

/-! ## Fields -/

theorem putField_small (h : v.length < 2 ^ 24) : putField tag inner v = tlv tag (tlv inner v) := by
  have hfits : v.length < 2 ^ 64 := by omega
  have hlen := (derValueLen_spec inner hfits).1 h
  unfold putField tlv
  rw [hlen, List.length_append]

theorem value_putField_large (tag inner : UInt8) (h : 2 ^ 24 ≤ v.length) (hfits : v.length < 2 ^ 63)
    (rest : Bytes) : ∃ cut left, (new (putField tag inner v ++ rest)).value tag = (some cut, left) ∧
      ∃ short, (new cut).value inner = (none, ⟨short, true⟩) := by
  have hlen : v.length < 2 ^ 64 := by omega
  obtain ⟨hlow, hhigh⟩ := (derValueLen_spec inner hlen).2 h
  have hbound : derValueLen v.length < 2 ^ 64 := by
    unfold derValueLen
    split
    · omega
    · split
      · omega
      · split <;> omega
  have hcut : (derTaglen inner v.length ++ v ++ rest).take (derValueLen v.length) =
      derTaglen inner v.length ++ v.take (derValueLen v.length - (derTaglen inner v.length).length) := by
    rw [List.append_assoc, List.take_append, List.take_of_length_le hlow,
      List.take_append_of_le_length (by omega)]
  have hfirst := value_taglen tag hbound (derTaglen inner v.length ++ v ++ rest)
  rw [if_neg (by simp only [List.length_append]; omega), hcut] at hfirst
  rw [putField, List.append_assoc]
  refine ⟨_, _, hfirst, v.take (derValueLen v.length - (derTaglen inner v.length).length), ?_⟩
  rw [value_taglen inner (by omega), if_pos (by rw [List.length_take]; omega)]

theorem holding_tlv (tag : UInt8) (e : GssError) (h : v.length < 2 ^ 64) : holding tag e (tlv tag v) = .ok v := by
  have hvalue := value_tlv tag h []
  rw [List.append_nil] at hvalue
  rw [holding, In.required, hvalue]
  rfl

theorem field_small (tag : UInt8) {holds : Bytes → Except GssError α} {a : α}
    (h : v.length < 2 ^ 24) (hholds : holds (tlv inner v) = .ok a) (rest : Bytes) :
    (new (putField tag inner v ++ rest)).field tag holds = .ok (some a, new rest) := by
  have hlen : (tlv inner v).length < 2 ^ 64 := by
    have hle := derTaglen_length_le inner v.length
    rw [tlv, List.length_append]
    omega
  rw [putField_small h, field, value_tlv tag hlen]
  dsimp only
  rw [hholds]
  rfl

theorem field_absent {buf : Bytes} (h : buf.head? ≠ some tag) (holds : Bytes → Except GssError α) :
    (new buf).field tag holds = .ok (none, new buf) := by
  rw [field, value_other h]

theorem field_bad (tag : UInt8) (holds : Bytes → Except GssError α) :
    field ⟨buf, true⟩ tag holds = .ok (none, ⟨buf, true⟩) := by
  rw [field, value_bad]

theorem field_large (h : 2 ^ 24 ≤ v.length) (hfits : v.length < 2 ^ 63) (rest : Bytes) :
    (new (putField tag inner v ++ rest)).field tag (holding inner e) = .error e := by
  obtain ⟨cut, left, hvalue, short, hinner⟩ := value_putField_large tag inner h hfits rest
  rw [field, hvalue]
  dsimp only
  rw [holding, In.required, hinner]
  rfl

theorem field_optional {v : Option Bytes} (hsmall : ∀ b ∈ v, b.length < 2 ^ 24) (hrest : rest.head? ≠ some tag) :
    (new (putOptional tag inner v ++ rest)).field tag (holding inner e) = .ok (v, new rest) := by
  cases v with
  | none => exact field_absent hrest _
  | some b =>
    have hb := hsmall b rfl
    exact field_small tag hb (holding_tlv inner e (by omega)) rest

theorem head_putOptional (inner : UInt8) (hne : tag ≠ tag') (v : Option Bytes)
    (hrest : rest.head? ≠ some tag') : (putOptional tag inner v ++ rest).head? ≠ some tag' := by
  cases v with
  | none => exact hrest
  | some b =>
    show (putField tag inner b ++ rest).head? ≠ some tag'
    rw [putField, List.append_assoc, head_tlv]
    exact fun h => hne (Option.some.inj h)

theorem head_putOptional_only (inner : UInt8) (hne : tag ≠ tag') (v : Option Bytes) :
    (putOptional tag inner v).head? ≠ some tag' := by
  rw [← List.append_nil (putOptional tag inner v)]
  exact head_putOptional inner hne v (Option.some_ne_none tag').symm

/-! ## Mechanism lists -/

theorem lenLoop_append {n acc : Nat} {c : Bytes} (h : lenLoop n acc p = .ok (len, c)) :
    lenLoop n acc (p ++ q) = .ok (len, c ++ q) := by
  induction n generalizing acc p with
  | zero =>
    cases h
    rfl
  | succ n ih =>
    cases p with
    | nil => cases h
    | cons b p =>
      rw [lenLoop] at h
      rw [List.cons_append, lenLoop]
      split at h
      case isTrue => cases h
      case isFalse hfits =>
        rw [if_neg hfits]
        exact ih h

theorem readLen_append {lenbyte : UInt8} {c : Bytes} (h : readLen lenbyte p = .ok (len, c)) :
    readLen lenbyte (p ++ q) = .ok (len, c ++ q) := by
  unfold readLen at h ⊢
  split at h
  case isTrue hshort =>
    rw [if_pos hshort]
    cases h
    rfl
  case isFalse hlong =>
    rw [if_neg hlong]
    exact lenLoop_append q h

theorem value_append {left : In} (h : (new p).value tag = (some v, left)) :
    left = new left.buf ∧ (new (p ++ q)).value tag = (some v, new (left.buf ++ q)) := by
  unfold value new at h
  split at h
  case isTrue => cases h
  case isFalse hhead =>
    cases p with
    | nil => exact absurd (Or.inr (Option.some_ne_none tag).symm) hhead
    | cons t p =>
      cases p with
      | nil => cases h
      | cons lenbyte p =>
        simp only [List.drop_succ_cons, List.drop_zero] at h
        cases hread : readLen lenbyte p with
        | error left =>
          rw [hread] at h
          cases h
        | ok r =>
          rw [hread] at h
          dsimp only at h
          split at h
          case isTrue => cases h
          case isFalse hlen =>
            cases h
            refine ⟨rfl, ?_⟩
            unfold value new
            refine (if_neg hhead).trans ?_
            simp only [List.cons_append, List.drop_succ_cons, List.drop_zero, readLen_append q hread]
            rw [if_neg (by rw [List.length_append]; omega), List.take_append_of_le_length (by omega),
              List.drop_append_of_le_length (by omega)]

theorem putOid_eq_tlv (oid : Bytes) : putOid oid = tlv tagOid oid := rfl

theorem tlv_ne_nil (tag : UInt8) (v : Bytes) : tlv tag v ≠ [] := by
  intro h
  have hhead := head_tlv tag v.length v
  rw [show derTaglen tag v.length ++ v = tlv tag v from rfl, h] at hhead
  cases hhead

theorem mechLoop_flatMap (h : ∀ o ∈ mechs, o.length < 2 ^ 64) (hfuel : mechs.length ≤ fuel) :
    mechLoop fuel (new (mechs.flatMap putOid)) = some (mechs, new []) := by
  induction mechs generalizing fuel with
  | nil =>
    cases fuel with
    | zero => rfl
    | succ fuel => rfl
  | cons o mechs ih =>
    cases fuel with
    | zero => exact absurd hfuel (Nat.not_succ_le_zero _)
    | succ fuel =>
      have hne : ¬ ((new ((o :: mechs).flatMap putOid)).bad ∨ (new ((o :: mechs).flatMap putOid)).buf = []) := by
        rintro (hbad | hnil)
        · cases hbad
        · exact tlv_ne_nil tagOid o (List.append_eq_nil_iff.mp hnil).1
      rw [mechLoop, if_neg hne, List.flatMap_cons, putOid_eq_tlv, value_tlv tagOid (h o List.mem_cons_self)]
      dsimp only
      rw [ih (fun o ho => h o (List.mem_cons_of_mem _ ho)) (Nat.le_of_succ_le_succ hfuel)]
      rfl

theorem mechLoop_cut (h : ∀ o ∈ mechs, o.length < 2 ^ 64) {q : Bytes} {seq : In}
    (hloop : mechLoop fuel (new p) = some (mechs, seq)) (hcut : p ++ q = mechs.flatMap putOid) : q = [] := by
  induction mechs generalizing fuel p seq with
  | nil => exact (List.append_eq_nil_iff.mp hcut).2
  | cons o mechs ih =>
    cases fuel with
    | zero => cases hloop
    | succ fuel =>
      rw [mechLoop] at hloop
      split at hloop
      case isTrue => cases hloop
      case isFalse =>
        cases hvalue : (new p).value tagOid with
        | mk v left =>
          rw [hvalue] at hloop
          cases v with
          | none => cases hloop
          | some v =>
            obtain ⟨hleft, hmore⟩ := value_append q hvalue
            rw [hcut, List.flatMap_cons, putOid_eq_tlv, value_tlv tagOid (h o List.mem_cons_self)] at hmore
            have hrest := congrArg (fun r => r.2.buf) hmore
            obtain ⟨⟨read, seq'⟩, hread, hpair⟩ := Option.map_eq_some_iff.mp hloop
            have hmechs : read = mechs := (List.cons.inj (congrArg Prod.fst hpair)).2
            rw [hleft, hmechs] at hread
            exact ih (fun o ho => h o (List.mem_cons_of_mem _ ho)) hread hrest.symm

theorem mechSetLen_spec (h : ∀ o ∈ mechs, o.length < 2 ^ 64) : mechSetLen mechs ≤ (mechs.flatMap putOid).length ∧
      (mechSetLen mechs = (mechs.flatMap putOid).length ↔
        ∀ o ∈ mechs, o.length < 2 ^ 24) := by
  induction mechs with
  | nil => simp [mechSetLen]
  | cons o mechs ih =>
    obtain ⟨hle, hiff⟩ := ih fun o ho => h o (List.mem_cons_of_mem _ ho)
    obtain ⟨hsmall, hlarge⟩ := derValueLen_spec tagOid (h o List.mem_cons_self)
    rw [mechSetLen, List.foldr_cons, ← mechSetLen.eq_1, List.flatMap_cons, List.length_append, putOid, List.length_append,
      List.forall_mem_cons, ← hiff]
    rcases Nat.lt_or_ge o.length (2 ^ 24) with hlt | hge
    · have := hsmall hlt
      exact ⟨by omega, fun _ => ⟨hlt, by omega⟩, fun hboth => by omega⟩
    · have := hlarge hge
      exact ⟨by omega, fun heq => by omega, fun hboth => by omega⟩

theorem length_le_flatMap (mechs : List Bytes) :
    mechs.length ≤ (mechs.flatMap putOid).length ∧ ∀ o ∈ mechs, o.length ≤ (mechs.flatMap putOid).length := by
  refine ⟨Wire.length_le_flatMap fun o _ => List.ne_nil_of_length_pos ?_, fun o ho => ?_⟩
  · have := derTaglen_length_le tagOid o.length
    rw [putOid, List.length_append]
    omega
  · obtain ⟨before, after, rfl⟩ := List.append_of_mem ho
    simp only [List.flatMap_append, List.flatMap_cons, List.length_append, putOid]
    omega

theorem getMechSet_putMechSet (h : (putMechSet mechs).length < 2 ^ 64) :
    getMechSet (putMechSet mechs) = some mechs ↔ ∀ o ∈ mechs, o.length < 2 ^ 24 := by
  have hwhole : (mechs.flatMap putOid).length < 2 ^ 64 := by
    rw [putMechSet, List.length_append] at h
    omega
  obtain ⟨hcount, heach⟩ := length_le_flatMap mechs
  have hfit := fun o ho => Nat.lt_of_le_of_lt (heach o ho) hwhole
  obtain ⟨hle, hiff⟩ := mechSetLen_spec hfit
  have hvalue := value_taglen tagSequence (Nat.lt_of_le_of_lt hle hwhole) (mechs.flatMap putOid)
  rw [if_neg (Nat.not_lt.mpr hle)] at hvalue
  rw [getMechSet, putMechSet, hvalue]
  dsimp only
  constructor
  · intro hget
    split at hget
    case h_1 => cases hget
    case h_2 read seq hloop =>
      split at hget
      case isTrue => cases hget
      case isFalse =>
        cases hget
        -- the bytes behind the announced end are none
        have hnil := mechLoop_cut hfit hloop (List.take_append_drop _ _)
        have := List.drop_eq_nil_iff.mp hnil
        exact hiff.mp (Nat.le_antisymm hle this)
  · intro hsmall
    rw [List.take_of_length_le (Nat.le_of_eq (hiff.mpr hsmall).symm), mechLoop_flatMap hfit hcount]
    rfl

/-! ## Initial tokens -/

theorem required_tlv (tag : UInt8) (e : GssError) (h : v.length < 2 ^ 64) (rest : Bytes) :
    (new (tlv tag v ++ rest)).required tag e = .ok (v, new rest) := by
  rw [In.required, value_tlv tag h]

theorem required_tlv_only (tag : UInt8) (e : GssError) (h : v.length < 2 ^ 64) :
    (new (tlv tag v)).required tag e = .ok (v, new []) := by
  have hrequired := required_tlv tag e h []
  rwa [List.append_nil] at hrequired

@[simp] theorem ok_then {β : Type} (a : α) (f : α → Except GssError β) : (Except.ok a >>= f) = f a := rfl

@[simp] theorem error_then {β : Type} (e : GssError) (f : α → Except GssError β) :
    (Except.error e >>= f) = .error e := rfl

@[simp] theorem unspoilt_new (a : α) : unspoilt (new buf) a = .ok a := rfl

theorem decodeNegTokenInit_encode {derMechTypes : Bytes} {compat : Bool}
    (h : (encodeNegTokenInit derMechTypes mechToken mic compat).length < 2 ^ 64) :
    decodeNegTokenInit (encodeNegTokenInit derMechTypes mechToken mic compat) =
      decodeInitFields (new (initFields derMechTypes mechToken mic compat)) := by
  have hshape : encodeNegTokenInit derMechTypes mechToken mic compat =
      tlv tagHeader (tlv tagOid mechSpnego ++
        tlv (ctx 0) (tlv tagSequence (initFields derMechTypes mechToken mic compat))) := by
    have hmech : derValueLen mechSpnego.length = (tlv tagOid mechSpnego).length := by decide
    rw [encodeNegTokenInit, hmech, ← List.length_append]
    rfl
  generalize initFields derMechTypes mechToken mic compat = fields at hshape ⊢
  rw [hshape] at h ⊢
  have hframed : (tlv tagOid mechSpnego ++ tlv (ctx 0) (tlv tagSequence fields)).length < 2 ^ 64 := by
    rw [tlv, List.length_append] at h
    omega
  have hchoice : (tlv tagSequence fields).length < 2 ^ 64 := by
    rw [List.length_append, tlv.eq_1 (ctx 0), List.length_append] at hframed
    omega
  have hfields : fields.length < 2 ^ 64 := by
    rw [tlv, List.length_append] at hchoice
    omega
  have hthis : thisMech (new (tlv tagOid mechSpnego ++ tlv (ctx 0) (tlv tagSequence fields))) =
      .ok (new (tlv (ctx 0) (tlv tagSequence fields))) := by
    rfl
  simp only [decodeNegTokenInit, required_tlv_only tagHeader .defectiveToken hframed, unspoilt_new, hthis,
    required_tlv_only (ctx 0) .defectiveToken hchoice, required_tlv_only tagSequence .defectiveToken hfields,
    ok_then]

theorem requireMechs_putMechSet {read : List Bytes} :
    requireMechs (putMechSet mechs) = .ok read ↔ getMechSet (putMechSet mechs) = some read := by
  have hne : putMechSet mechs ≠ [] := by
    intro hnil
    have hhead := head_tlv tagSequence (mechSetLen mechs) (mechs.flatMap putOid)
    rw [show derTaglen tagSequence _ ++ _ = putMechSet mechs from rfl, hnil] at hhead
    cases hhead
  rw [requireMechs, if_neg hne]
  cases getMechSet (putMechSet mechs) with
  | none => simp
  | some mechs => simp

theorem field_optional_iff (inner : UInt8) (e : GssError) {v : Option Bytes}
    (hfits : ∀ b ∈ v, b.length < 2 ^ 63) (hrest : rest.head? ≠ some tag) :
    (new (putOptional tag inner v ++ rest)).field tag (holding inner e) = .ok (v, new rest) ∧
        (∀ b ∈ v, b.length < 2 ^ 24) ∨
      (new (putOptional tag inner v ++ rest)).field tag (holding inner e) = .error e ∧
        ¬ ∀ b ∈ v, b.length < 2 ^ 24 := by
  by_cases hsmall : ∀ b ∈ v, b.length < 2 ^ 24
  · exact .inl ⟨field_optional hsmall hrest, hsmall⟩
  refine .inr ⟨?_, hsmall⟩
  cases v with
  | none => exact absurd (fun b hb => absurd hb.symm (Option.some_ne_none b)) hsmall
  | some b =>
    have hlarge : 2 ^ 24 ≤ b.length := by
      refine Nat.le_of_not_lt fun hlt => hsmall fun b' hb' => ?_
      rwa [← Option.some.inj hb']
    exact field_large hlarge (hfits b rfl) rest

theorem length_putOptional (tag inner : UInt8) {v : Option Bytes} {b : Bytes} (hb : b ∈ v) :
    b.length ≤ (putOptional tag inner v).length := by
  obtain rfl := hb
  show b.length ≤ (putField tag inner b).length
  rw [putField, List.length_append, List.length_append]
  omega

theorem init_read_back (h : (encodeNegTokenInit (putMechSet mechs) mechToken mic false).length < 2 ^ 63) :
    decodeNegTokenInit (encodeNegTokenInit (putMechSet mechs) mechToken mic false) =
        .ok (⟨⟨mechs, mechToken, mic⟩, none⟩, putMechSet mechs) ↔
      (∀ o ∈ mechs, o.length < 2 ^ 24) ∧ (∀ b ∈ mechToken, b.length < 2 ^ 24) ∧ ∀ b ∈ mic, b.length < 2 ^ 24 := by
  have hshape : initFields (putMechSet mechs) mechToken mic false = tlv (ctx 0) (putMechSet mechs) ++
      (putOptional (ctx 2) tagOctetString mechToken ++ (putOptional (ctx 3) tagOctetString mic ++ [])) := by
    rw [List.append_nil]
    rfl
  have hfields : (initFields (putMechSet mechs) mechToken mic false).length < 2 ^ 63 := by
    rw [encodeNegTokenInit] at h
    simp only [List.length_append] at h
    omega
  rw [hshape, tlv] at hfields
  simp only [List.length_append] at hfields
  have hmechs : (putMechSet mechs).length < 2 ^ 64 := by omega
  have htoken : ∀ b ∈ mechToken, b.length < 2 ^ 63 := fun b hb => by
    have := length_putOptional (ctx 2) tagOctetString hb
    omega
  have hmic : ∀ b ∈ mic, b.length < 2 ^ 63 := fun b hb => by
    have := length_putOptional (ctx 3) tagOctetString hb
    omega
  have hlast : ([] : Bytes).head? ≠ some (ctx 3) := (Option.some_ne_none _).symm
  have hnext : (putOptional (ctx 3) tagOctetString mic ++ []).head? ≠ some (ctx 2) :=
    head_putOptional tagOctetString (by decide) mic (Option.some_ne_none _).symm
  have hflags : (putOptional (ctx 2) tagOctetString mechToken ++
      (putOptional (ctx 3) tagOctetString mic ++ [])).head? ≠ some (ctx 1) :=
    head_putOptional tagOctetString (by decide) mechToken
      (head_putOptional tagOctetString (by decide) mic (Option.some_ne_none _).symm)
  rw [decodeNegTokenInit_encode (by omega), hshape, ← getMechSet_putMechSet hmechs, ← requireMechs_putMechSet]
  simp only [decodeInitFields, required_tlv (ctx 0) .defectiveToken hmechs, ok_then, field_absent hflags]
  cases requireMechs (putMechSet mechs) with
  | error e => simp
  | ok read =>
    rcases field_optional_iff tagOctetString .failure htoken hnext with ⟨hread, hsmall⟩ | ⟨hread, hlarge⟩
    · rcases field_optional_iff tagOctetString .failure hmic hlast with ⟨hread', hsmall'⟩ | ⟨hread', hlarge'⟩
      · simp only [ok_then, hread, hread', unspoilt_new]
        exact ⟨fun heq => by cases heq; exact ⟨rfl, hsmall, hsmall'⟩, fun hall => by cases hall.1; rfl⟩
      · simp only [ok_then, hread, hread', error_then]
        exact iff_of_false (fun heq => by cases heq) fun hall => hlarge' hall.2.2
    · simp only [ok_then, hread, error_then]
      exact iff_of_false (fun heq => by cases heq) fun hall => hlarge hall.2.1

/-! ## Replies -/

theorem respFields_lengths (h : (respFields state supportedMech token mic).length < 2 ^ 24) :
    (∀ b ∈ supportedMech, b.length < 2 ^ 24) ∧ (∀ b ∈ nonEmpty token, b.length < 2 ^ 24) ∧
      ∀ b ∈ mic, b.length < 2 ^ 24 := by
  rw [respFields] at h
  simp only [List.length_append] at h
  refine ⟨fun b hb => ?_, fun b hb => ?_, fun b hb => ?_⟩
  · have := length_putOptional (ctx 1) tagOid hb
    omega
  · have := length_putOptional (ctx 2) tagOctetString hb
    omega
  · have := length_putOptional (ctx 3) tagOctetString hb
    omega

theorem getNegState_code (state : NegState) : getNegState (tlv tagEnumerated [state.code]) = .ok state := by
  cases state <;> rfl

theorem field_mic (responseToken : Option Bytes) (h : ∀ b ∈ mic, b.length < 2 ^ 24) :
    (new (putOptional (ctx 3) tagOctetString mic)).field (ctx 3) (getMic responseToken) =
      .ok (mic.map some, new []) := by
  cases mic with
  | none => rfl
  | some b =>
    have hb := h b rfl
    have hvalue := value_tlv tagOctetString (show b.length < 2 ^ 64 by omega) []
    rw [List.append_nil] at hvalue
    have hmic : getMic responseToken (tlv tagOctetString b) = .ok (some b) := by
      rw [getMic, hvalue]
    have hfield := field_small (ctx 3) hb hmic []
    rwa [List.append_nil] at hfield

theorem decodeRespFields_small (h : (respFields state supportedMech token mic).length < 2 ^ 24)
    (hdistinct : ∀ b ∈ nonEmpty token, mic ≠ some b) :
    decodeRespFields (new (respFields state supportedMech token mic)) =
      .ok ⟨some state, supportedMech, nonEmpty token, mic⟩ := by
  obtain ⟨hmech, htoken, hmic⟩ := respFields_lengths h
  have hlast : (putOptional (ctx 3) tagOctetString mic).head? ≠ some (ctx 2) :=
    head_putOptional_only tagOctetString (by decide) mic
  have hnext : (putOptional (ctx 2) tagOctetString (nonEmpty token) ++
      putOptional (ctx 3) tagOctetString mic).head? ≠ some (ctx 1) :=
    head_putOptional tagOctetString (by decide) _ (head_putOptional_only tagOctetString (by decide) mic)
  have hdup : dropDuplicate (nonEmpty token) mic = mic := by
    refine if_neg fun hsame => ?_
    obtain ⟨b, hb⟩ := Option.isSome_iff_exists.mp hsame.1
    exact hdistinct b (hsame.2 ▸ hb) hb
  have hstate := field_small (ctx 0) (Nat.lt_of_sub_eq_succ rfl) (getNegState_code state)
  simp only [decodeRespFields, respFields, hstate, ok_then, field_optional hmech hnext, field_optional htoken hlast,
    field_mic (nonEmpty token) hmic, unspoilt_new]
  cases mic with
  | none => simp only [Option.map_none, Option.join_none, hdup]
  | some b => simp only [Option.map_some, Option.join_some, hdup]

/-- The bytes of an optional field with its two headers. -/
def fieldLen (v : Option Bytes) : Nat := (v.map fun b => derValueLen (derValueLen b.length)).getD 0

theorem le_derValueLen (len : Nat) : len ≤ derValueLen len := by
  unfold derValueLen
  omega

theorem length_putOptional_eq (tag inner : UInt8) {v : Option Bytes}
    (h : (putOptional tag inner v).length < 2 ^ 24 ∨ fieldLen v < 2 ^ 24) :
    (putOptional tag inner v).length = fieldLen v := by
  cases v with
  | none => rfl
  | some b =>
    simp only [putOptional, putField, fieldLen, Option.map_some, Option.getD_some, List.length_append] at h ⊢
    have hinner := le_derValueLen b.length
    have houter := le_derValueLen (derValueLen b.length)
    have hb : derValueLen b.length = (derTaglen inner b.length).length + b.length :=
      (derValueLen_spec inner (by omega)).1 (by omega)
    have hsmall : derValueLen b.length < 2 ^ 24 := by omega
    rw [(derValueLen_spec tag (by omega)).1 hsmall]
    omega

theorem length_respFields_lt : (respFields state supportedMech token mic).length < 2 ^ 24 ↔
    5 + (fieldLen supportedMech + fieldLen (nonEmpty token) + fieldLen mic) < 2 ^ 24 := by
  have hstate : (putField (ctx 0) tagEnumerated [state.code]).length = 5 := rfl
  rw [respFields, List.length_append, List.length_append, List.length_append, hstate]
  constructor
  · intro h
    rw [← length_putOptional_eq (ctx 1) tagOid (.inl (by omega)),
      ← length_putOptional_eq (ctx 2) tagOctetString (.inl (by omega)),
      ← length_putOptional_eq (ctx 3) tagOctetString (.inl (by omega))]
    omega
  · intro h
    rw [length_putOptional_eq (ctx 1) tagOid (.inr (by omega)),
      length_putOptional_eq (ctx 2) tagOctetString (.inr (by omega)),
      length_putOptional_eq (ctx 3) tagOctetString (.inr (by omega))]
    omega

theorem resp_read_back (h : (encodeNegTokenResp state supportedMech token mic).length < 2 ^ 63)
    (htoken : ∀ b ∈ token, b ≠ [] ∧ mic ≠ some b) :
    decodeNegTokenResp (encodeNegTokenResp state supportedMech token mic) =
        .ok ⟨some state, supportedMech, token, mic⟩ ↔
      5 + (fieldLen supportedMech + fieldLen token + fieldLen mic) < 2 ^ 24 := by
  have hkept : nonEmpty token = token := by
    cases token with
    | none => rfl
    | some b => exact Option.filter_some_pos (decide_eq_true (htoken b rfl).1)
  have hfits : (respFields state supportedMech token mic).length < 2 ^ 24 ↔ _ := length_respFields_lt
  rw [hkept] at hfits
  rw [← hfits]
  have hlen : (respFields state supportedMech token mic).length < 2 ^ 63 := by
    rw [encodeNegTokenResp, putField, List.length_append, List.length_append] at h
    omega
  rcases Nat.lt_or_ge (respFields state supportedMech token mic).length (2 ^ 24) with hsmall | hlarge
  · refine iff_of_true ?_ hsmall
    have hfields := decodeRespFields_small hsmall fun b hb => (htoken b (hkept ▸ hb)).2
    have hseq : (tlv tagSequence (respFields state supportedMech token mic)).length < 2 ^ 64 := by
      have hle := derTaglen_length_le tagSequence (respFields state supportedMech token mic).length
      rw [tlv, List.length_append]
      omega
    have hopen := value_tlv tagSequence (show (respFields state supportedMech token mic).length < 2 ^ 64 by omega) []
    rw [List.append_nil] at hopen
    rw [decodeNegTokenResp, encodeNegTokenResp, putField_small hsmall, required_tlv_only _ _ hseq]
    simp only [ok_then, openSequence, hopen, hfields, hkept]
  · -- the sequence is spoilt, and the fields are looked for in what is left of it
    refine iff_of_false ?_ (Nat.not_lt.mpr hlarge)
    obtain ⟨cut, left, hvalue, short, hinner⟩ := value_putField_large (ctx 1) tagSequence hlarge hlen []
    rw [List.append_nil] at hvalue
    simp only [decodeNegTokenResp, encodeNegTokenResp, In.required, hvalue, ok_then, openSequence, hinner,
      decodeRespFields, field_bad]
    exact fun heq => by cases heq

/-- Tokens are read back as they were made exactly when no length worked out beforehand takes a fourth byte. -/
theorem tokens_read_back (mechs : List Bytes) (mechToken mechListMic : Option Bytes) (state : NegState)
    (supportedMech token mic : Option Bytes)
    (hinit : (encodeNegTokenInit (putMechSet mechs) mechToken mechListMic false).length < 2 ^ 63)
    (hresp : (encodeNegTokenResp state supportedMech token mic).length < 2 ^ 63)
    (htoken : ∀ b ∈ token, b ≠ [] ∧ mic ≠ some b) :
    (decodeNegTokenInit (encodeNegTokenInit (putMechSet mechs) mechToken mechListMic false) =
          .ok (⟨⟨mechs, mechToken, mechListMic⟩, none⟩, putMechSet mechs) ↔
        (∀ o ∈ mechs, o.length < 2 ^ 24) ∧ (∀ b ∈ mechToken, b.length < 2 ^ 24) ∧
          ∀ b ∈ mechListMic, b.length < 2 ^ 24) ∧
      (decodeNegTokenResp (encodeNegTokenResp state supportedMech token mic) =
          .ok ⟨some state, supportedMech, token, mic⟩ ↔
        5 + (fieldLen supportedMech + fieldLen token + fieldLen mic) < 2 ^ 24) :=
  ⟨init_read_back hinit, resp_read_back hresp htoken⟩

theorem tokens_read_back_short :
    decodeNegTokenInit (encodeNegTokenInit (putMechSet [mechKrb5]) (some [1, 2]) none false) =
        .ok (⟨⟨[mechKrb5], some [1, 2], none⟩, none⟩, putMechSet [mechKrb5]) ∧
      decodeNegTokenResp (encodeNegTokenResp .requestMic (some mechKrb5) (some [1]) (some [2])) =
        .ok ⟨some .requestMic, some mechKrb5, some [1], some [2]⟩ := by
  have hboth := tokens_read_back [mechKrb5] (some [1, 2]) none .requestMic (some mechKrb5) (some [1]) (some [2])
    (by decide) (by decide) (by decide)
  exact ⟨hboth.1.mpr (by decide), hboth.2.mpr (by decide)⟩

theorem encodeNegTokenInit_length (token : Bytes) :
    (encodeNegTokenInit (putMechSet [mechKrb5]) (some token) none false).length ≤ token.length + 100 := by
  have hmechs : (putMechSet [mechKrb5]).length = 13 := by decide
  have hspnego : mechSpnego.length = 6 := rfl
  have htaglen := derTaglen_length_le
  simp only [encodeNegTokenInit, initFields, putOptional, putField, Option.map_some, Option.map_none,
    Option.getD_some, Option.getD_none, List.length_append, List.length_nil, hmechs, hspnego]
  grind

/-- A mechanism token of `2 ^ 24` bytes, in a field announced one byte short. -/
theorem long_token_refused :
    decodeNegTokenInit (encodeNegTokenInit (putMechSet [mechKrb5]) (some (List.replicate (2 ^ 24) 0)) none false) ≠
      .ok (⟨⟨[mechKrb5], some (List.replicate (2 ^ 24) 0), none⟩, none⟩, putMechSet [mechKrb5]) := by
  -- only the length counts
  have hlen : (List.replicate (2 ^ 24) (0 : UInt8)).length = 2 ^ 24 := List.length_replicate
  generalize List.replicate (2 ^ 24) (0 : UInt8) = token at hlen ⊢
  have hle := encodeNegTokenInit_length token
  intro hread
  have hsmall := ((init_read_back (by omega)).mp hread).2.1 token rfl
  omega

end Spnego

end Krb5Rs
