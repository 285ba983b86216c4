import Krb5Rs.Enctypes

/-!
# What the enctypes keep of their state

Ciphertext stealing is undone, and both ends of a message leave the same state. A
message refused by an HMAC-SHA2 enctype leaves the state alone; one refused by an
HMAC-SHA1 enctype has set it already, to a block of the message.
-/

namespace Krb5Rs

open Wire (Bytes be)
open Cbc (Whole xor cbc uncbc)
open Primitives (aes)

namespace Enctypes

/-! ## Whole blocks -/

variable {bs : List Bytes} {b : Bytes}

theorem flatten_length (h : Whole 16 bs) : bs.flatten.length = bs.length * aesBlock := by
  induction bs with
  | nil => rfl
  | cons b bs ih =>
    obtain ⟨hb, hbs⟩ := List.forall_mem_cons.mp h
    rw [List.flatten_cons, List.length_append, hb, ih hbs, List.length_cons, aesBlock]
    omega

theorem chunks_cons (hb : b.length = aesBlock) (rest : Bytes) : chunks (b ++ rest) = b :: chunks rest := by
  have hcount : (b ++ rest).length / aesBlock = rest.length / aesBlock + 1 := by
    rw [List.length_append, hb, Nat.add_comm, Nat.add_div_right _ (by decide)]
  rw [chunks, hcount, List.range_succ_eq_map, List.map_cons, Nat.zero_mul, List.drop_zero, List.take_left' hb, chunks,
    List.map_map]
  refine congrArg (b :: ·) (List.map_congr_left fun i _ => ?_)
  show ((b ++ rest).drop ((i + 1) * aesBlock)).take aesBlock = _
  rw [Nat.succ_mul, Nat.add_comm, ← List.drop_drop, List.drop_left' hb]

theorem chunks_flatten (h : Whole 16 bs) : chunks bs.flatten = bs := by
  induction bs with
  | nil => rfl
  | cons b bs ih =>
    obtain ⟨hb, hbs⟩ := List.forall_mem_cons.mp h
    rw [List.flatten_cons, chunks_cons hb, ih hbs]

theorem exists_blocks (k : Nat) (data : Bytes) (h : data.length = k * aesBlock) :
    ∃ bs, Whole 16 bs ∧ bs.length = k ∧ data = bs.flatten := by
  induction k generalizing data with
  | zero =>
    obtain rfl := List.length_eq_zero_iff.mp (h.trans (Nat.zero_mul _))
    exact ⟨[], List.forall_mem_nil _, rfl, rfl⟩
  | succ k ih =>
    rw [Nat.succ_mul] at h
    obtain ⟨bs, hbs, hcount, hrest⟩ := ih (data.drop aesBlock) (by rw [List.length_drop]; omega)
    have hb : (data.take aesBlock).length = 16 := by
      rw [List.length_take, h, aesBlock]
      omega
    refine ⟨data.take aesBlock :: bs, List.forall_mem_cons.mpr ⟨hb, hbs⟩, by rw [List.length_cons, hcount], ?_⟩
    rw [List.flatten_cons, ← hrest, List.take_append_drop]

theorem blockAt_bytes {data : Bytes} {offset : Nat} (h : offset + aesBlock ≤ data.length) :
    (blockAt data offset).bytes = (data.drop offset).take aesBlock := by
  show (data.drop offset ++ List.replicate aesBlock 0).take aesBlock = _
  rw [List.take_append_of_le_length (by rw [List.length_drop]; omega)]

theorem drop_confounder (confounder : Block) (plain : Bytes) : (confounder.bytes ++ plain).drop aesBlock = plain :=
  List.drop_left' confounder.len

section
variable [Primitives] {key iv : Bytes} (hk : knownKey key = true)
include hk

theorem aesEcbEncryptBlock_ok (hb : b.length = 16) : aesEcbEncryptBlock key b = .ok ((aes key).enc b) := by
  rw [aesEcbEncryptBlock, if_neg (by rw [hb]; decide), if_pos hk]

theorem aesEcbDecryptBlock_ok (hb : b.length = 16) : aesEcbDecryptBlock key b = .ok ((aes key).dec b) := by
  rw [aesEcbDecryptBlock, if_neg (by rw [hb]; decide), if_pos hk]

theorem cbcEncryptLoop_ok (hiv : iv.length = 16) (hbs : Whole 16 bs) :
    cbcEncryptLoop key iv bs = .ok (cbc (aes key) iv bs).flatten := by
  induction bs generalizing iv with
  | nil => rfl
  | cons b bs ih =>
    obtain ⟨hb, hbs⟩ := List.forall_mem_cons.mp hbs
    have hxor : (xor b iv).length = 16 := by rw [Cbc.xor_length, hb, hiv]; rfl
    rw [cbcEncryptLoop, aesEcbEncryptBlock_ok hk hxor]
    show (cbcEncryptLoop key _ bs >>= _) = _
    rw [ih ((aes key).enc_length _ hxor) hbs]
    rfl

theorem cbcDecryptLoop_ok (hbs : Whole 16 bs) :
    cbcDecryptLoop key iv bs = .ok (uncbc (aes key) iv bs).flatten := by
  induction bs generalizing iv with
  | nil => rfl
  | cons b bs ih =>
    obtain ⟨hb, hbs⟩ := List.forall_mem_cons.mp hbs
    rw [cbcDecryptLoop, aesEcbDecryptBlock_ok hk hb]
    rw [ih hbs]
    rfl

theorem aesCbcEncrypt_ok (hiv : iv.length = 16) (hbs : Whole 16 bs) :
    aesCbcEncrypt key iv bs.flatten = .ok (cbc (aes key) iv bs).flatten := by
  rw [aesCbcEncrypt, if_neg (by rw [flatten_length hbs, Nat.mul_mod_left]; decide), chunks_flatten hbs,
    cbcEncryptLoop_ok hk hiv hbs]

theorem aesCbcDecrypt_ok (iv : Bytes) (hbs : Whole 16 bs) :
    aesCbcDecrypt key iv bs.flatten = .ok (uncbc (aes key) iv bs).flatten := by
  rw [aesCbcDecrypt, if_neg (by rw [flatten_length hbs, Nat.mul_mod_left]; decide), chunks_flatten hbs,
    cbcDecryptLoop_ok hk hbs]

end

/-! ## Ciphertext stealing -/

theorem exists_tail {p : Bytes} (h : aesBlock < p.length) :
    ∃ bs x y, Whole 16 bs ∧ x.length = 16 ∧ 1 ≤ y.length ∧ y.length ≤ 16 ∧ p = bs.flatten ++ x ++ y := by
  rw [aesBlock] at h
  obtain ⟨bs, hbs, hcount, hflat⟩ := exists_blocks ((p.length - 1) / 16) (p.take ((p.length - 1) / 16 * aesBlock))
    (by rw [List.length_take, aesBlock]; omega)
  rcases List.eq_nil_or_concat bs with rfl | ⟨as, x, rfl⟩
  · rw [List.length_nil] at hcount
    omega
  rw [List.concat_eq_append] at hbs hcount hflat
  refine ⟨as, x, p.drop ((p.length - 1) / 16 * aesBlock), fun b hb => hbs b (List.mem_append_left _ hb),
    hbs x (by simp), ?_, ?_, ?_⟩
  · rw [List.length_drop, aesBlock]
    omega
  · rw [List.length_drop, aesBlock]
    omega
  · have hjoin := List.take_append_drop ((p.length - 1) / 16 * aesBlock) p
    rw [hflat, List.flatten_append, List.flatten_singleton] at hjoin
    exact hjoin.symm

theorem swapTail_flatten {cs : List Bytes} {c1 c2 : Bytes} (hcs : Whole 16 cs) (h1 : c1.length = 16)
    (h2 : c2.length = 16) (t : Nat) :
    swapTail (cs.flatten ++ c1 ++ c2) (cs.flatten.length + aesBlock + t) = cs.flatten ++ c2 ++ c1.take t := by
  have hflat : cs.flatten.length = cs.length * 16 := flatten_length hcs
  have hcount : (cs.flatten ++ c1 ++ c2).length / 16 = cs.length + 2 := by
    rw [List.length_append, List.length_append, hflat, h1, h2]
    omega
  have hhead : (if 2 < cs.length + 2 then (cs.flatten ++ c1 ++ c2).take (cs.length * 16) else []) = cs.flatten := by
    split
    case isTrue => rw [List.append_assoc, List.take_left' hflat]
    case isFalse hsmall =>
      have hnil : cs = [] := List.length_eq_zero_iff.mp (by omega)
      rw [hnil]
      rfl
  have hsecond : ((cs.flatten ++ c1 ++ c2).drop (cs.length * 16)).take 16 = c1 := by
    rw [List.append_assoc, List.drop_left' hflat, List.take_left' h1]
  have hlast : ((cs.flatten ++ c1 ++ c2).drop ((cs.length + 1) * 16)).take 16 = c2 := by
    have hlen : (cs.flatten ++ c1).length = (cs.length + 1) * 16 := by
      rw [List.length_append, hflat, h1]
      omega
    rw [List.drop_left' hlen, List.take_of_length_le (Nat.le_of_eq h2)]
  have htail : cs.flatten.length + 16 + t - (cs.length + 1) * 16 = t := by
    omega
  unfold swapTail aesBlock
  simp only [hcount, Nat.add_sub_cancel, show cs.length + 2 - 1 = cs.length + 1 from rfl, hhead, hsecond, hlast, htail]

theorem padded_length {y : Bytes} (hy : y.length ≤ 16) :
    (y ++ List.replicate (16 - y.length) (0 : UInt8)).length = 16 := by
  rw [List.length_append, List.length_replicate]
  omega

section
variable [Primitives]

def front (key : Bytes) (iv : Block) (bs : List Bytes) : List Bytes := cbc (aes key) iv.bytes bs

def penultimate (key : Bytes) (iv : Block) (bs : List Bytes) (x : Bytes) : Bytes :=
  (aes key).enc (xor x ((front key iv bs).getLastD iv.bytes))

def ultimate (key : Bytes) (iv : Block) (bs : List Bytes) (x y : Bytes) : Bytes :=
  (aes key).enc (xor (y ++ List.replicate (16 - y.length) 0) (penultimate key iv bs x))

variable (key : Bytes) (iv : Block) {bs : List Bytes} {x y : Bytes}

theorem whole_front (hbs : Whole 16 bs) : Whole 16 (front key iv bs) := Cbc.whole_cbc iv.len hbs

theorem front_flatten_length (hbs : Whole 16 bs) : (front key iv bs).flatten.length = bs.length * aesBlock := by
  have hflat := flatten_length (whole_front key iv hbs)
  rwa [front, Cbc.cbc_length] at hflat

theorem xor_front_length (hbs : Whole 16 bs) (hx : x.length = 16) :
    (xor x ((front key iv bs).getLastD iv.bytes)).length = 16 := by
  rw [Cbc.xor_length, hx, Cbc.getLastD_length iv.len (whole_front key iv hbs)]
  rfl

theorem penultimate_length (hbs : Whole 16 bs) (hx : x.length = 16) : (penultimate key iv bs x).length = 16 :=
  (aes key).enc_length _ (xor_front_length key iv hbs hx)

theorem ultimate_length (hbs : Whole 16 bs) (hx : x.length = 16) (hy : y.length ≤ 16) :
    (ultimate key iv bs x y).length = 16 := by
  refine (aes key).enc_length _ ?_
  rw [Cbc.xor_length, padded_length hy, penultimate_length key iv hbs hx]
  rfl

variable {key} (hk : knownKey key = true)
include hk

theorem aesCbcEncrypt_padded (hbs : Whole 16 bs) (hx : x.length = 16) (hy : y.length ≤ 16) :
    aesCbcEncrypt key iv.bytes (bs.flatten ++ x ++ y ++ List.replicate (16 - y.length) 0) =
      .ok ((front key iv bs).flatten ++ penultimate key iv bs x ++ ultimate key iv bs x y) := by
  have hwhole : Whole 16 (bs ++ [x, y ++ List.replicate (16 - y.length) 0]) := by
    intro b hb
    rcases List.mem_append.mp hb with hb | hb
    · exact hbs b hb
    simp only [List.mem_cons, List.not_mem_nil, or_false] at hb
    rcases hb with rfl | rfl
    · exact hx
    · exact padded_length hy
  have hjoin : bs.flatten ++ x ++ y ++ List.replicate (16 - y.length) 0 =
      (bs ++ [x, y ++ List.replicate (16 - y.length) 0]).flatten := by simp
  rw [hjoin, aesCbcEncrypt_ok hk iv.len hwhole, Cbc.cbc_append]
  simp [cbc, front, penultimate, ultimate]

theorem aesCtsEncryptIv_ok (hbs : Whole 16 bs) (hx : x.length = 16) (hy : 1 ≤ y.length) (hy' : y.length ≤ 16) :
    ∃ next : Block, next.bytes = ultimate key iv bs x y ∧
      aesCtsEncryptIv key iv (bs.flatten ++ x ++ y) =
        (.ok ((front key iv bs).flatten ++ ultimate key iv bs x y ++ (penultimate key iv bs x).take y.length), next) := by
  have h1 := penultimate_length key iv hbs hx
  have h2 := ultimate_length key iv hbs hx hy'
  have hfront := front_flatten_length key iv hbs
  have hlen : (bs.flatten ++ x ++ y).length = (front key iv bs).flatten.length + aesBlock + y.length := by
    rw [List.length_append, List.length_append, flatten_length hbs, hx, hfront, aesBlock]
  have hzeros : (aesBlock - (bs.flatten ++ x ++ y).length % aesBlock) % aesBlock = 16 - y.length := by
    rw [hlen, hfront, aesBlock]
    omega
  have hoffset : (((front key iv bs).flatten ++ penultimate key iv bs x ++ ultimate key iv bs x y).length / aesBlock - 1) *
      aesBlock = ((front key iv bs).flatten ++ penultimate key iv bs x).length := by
    simp only [List.length_append, hfront, h1, h2, aesBlock]
    omega
  refine ⟨blockAt ((front key iv bs).flatten ++ penultimate key iv bs x ++ ultimate key iv bs x y)
    ((((front key iv bs).flatten ++ penultimate key iv bs x ++ ultimate key iv bs x y).length / aesBlock - 1) *
      aesBlock), ?_, ?_⟩
  · rw [hoffset, blockAt_bytes (by simp only [List.length_append, h2, aesBlock]; omega), List.drop_left,
      List.take_of_length_le (by rw [h2]; decide)]
  · have hlong : aesBlock < (bs.flatten ++ x ++ y).length := by
      omega
    rw [aesCtsEncryptIv, if_neg (Nat.not_lt.mpr (Nat.le_of_lt hlong)), if_neg (Nat.ne_of_gt hlong)]
    dsimp only
    rw [hzeros, aesCbcEncrypt_padded iv hk hbs hx hy']
    dsimp only
    rw [hlen, swapTail_flatten (whole_front key iv hbs) h1 h2]

theorem decryptPrefix_ok (hbs : Whole 16 bs) (tail : Bytes) :
    decryptPrefix key iv ((front key iv bs).flatten ++ tail) (bs.length + 2) =
      .ok (bs.flatten, (front key iv bs).getLastD iv.bytes) := by
  have hfront := front_flatten_length key iv hbs
  unfold decryptPrefix
  split
  case isFalse hsmall =>
    obtain rfl := List.length_eq_zero_iff.mp (show bs.length = 0 by omega)
    rfl
  case isTrue hmany =>
    have hplain : aesCbcDecrypt key iv.bytes (front key iv bs).flatten = .ok bs.flatten := by
      rw [aesCbcDecrypt_ok hk _ (whole_front key iv hbs), front, Cbc.uncbc_cbc iv.len hbs]
    have hlast : (((front key iv bs).flatten ++ tail).drop (bs.length * aesBlock - aesBlock)).take aesBlock =
        (front key iv bs).getLastD iv.bytes := by
      have hwhole := whole_front key iv hbs
      rcases List.eq_nil_or_concat (front key iv bs) with hnil | ⟨cs, d, hcs⟩
      · rw [hnil, List.flatten_nil, List.length_nil, aesBlock] at hfront
        omega
      rw [List.concat_eq_append] at hcs
      rw [hcs] at hwhole hfront ⊢
      have hd : d.length = aesBlock := hwhole d (by simp)
      rw [List.flatten_append, List.flatten_singleton, List.length_append, hd] at hfront
      have hoffset : cs.flatten.length = bs.length * aesBlock - aesBlock := by omega
      rw [List.flatten_append, List.flatten_singleton, List.append_assoc, List.drop_left' hoffset,
        List.take_left' hd, List.getLastD_concat]
    rw [Nat.add_sub_cancel]
    dsimp only
    rw [List.take_left' hfront, hplain, hlast]
    rfl

theorem decryptTail_ok (hbs : Whole 16 bs) (hx : x.length = 16) (hy : y.length ≤ 16) :
    decryptTail key ((front key iv bs).getLastD iv.bytes) (ultimate key iv bs x y)
      ((penultimate key iv bs x).take y.length) = .ok (x ++ y) := by
  have h1 := penultimate_length key iv hbs hx
  have h2 := ultimate_length key iv hbs hx hy
  have hprev := Cbc.getLastD_length iv.len (whole_front key iv hbs)
  have hkept : ((penultimate key iv bs x).take y.length).length = y.length := by
    rw [List.length_take, h1]
    omega
  obtain ⟨hfinal, hstolen⟩ := Cbc.stolen (c := aes key) (rfl : y.length = y.length) hy h1
  rw [decryptTail, aesEcbDecryptBlock_ok hk h2, hkept]
  show (aesEcbDecryptBlock key _ >>= _) = _
  rw [ultimate, hstolen, aesEcbDecryptBlock_ok hk h1]
  show Except.ok (Cbc.xor _ _ ++ Cbc.xor _ _) = _
  rw [hfinal, penultimate, (aes key).dec_enc _ (xor_front_length key iv hbs hx), Cbc.xor_xor (by omega)]

theorem aesCtsDecryptIv_ok (hbs : Whole 16 bs) (hx : x.length = 16) (hy : 1 ≤ y.length) (hy' : y.length ≤ 16)
    {next : Block} (hnext : next.bytes = ultimate key iv bs x y) :
    aesCtsDecryptIv key iv ((front key iv bs).flatten ++ ultimate key iv bs x y ++
      (penultimate key iv bs x).take y.length) = (.ok (bs.flatten ++ x ++ y), next) := by
  have h1 := penultimate_length key iv hbs hx
  have h2 := ultimate_length key iv hbs hx hy'
  have hfront := front_flatten_length key iv hbs
  have hlen : ((front key iv bs).flatten ++ ultimate key iv bs x y ++
      (penultimate key iv bs x).take y.length).length = bs.length * 16 + 16 + y.length := by
    simp only [List.length_append, List.length_take, hfront, h1, h2, aesBlock]
    omega
  have hcount : (bs.length * 16 + 16 + y.length + 15) / aesBlock = bs.length + 2 := by
    rw [aesBlock]
    omega
  have hcn1 : blockAt ((front key iv bs).flatten ++ ultimate key iv bs x y ++
      (penultimate key iv bs x).take y.length) (bs.length * aesBlock) = next := by
    ext1
    rw [blockAt_bytes (by rw [hlen, aesBlock]; omega), List.append_assoc, List.drop_left' hfront, hnext]
    exact List.take_left' h2
  have hcn2 : ((front key iv bs).flatten ++ ultimate key iv bs x y ++
      (penultimate key iv bs x).take y.length).drop ((bs.length + 1) * aesBlock) =
        (penultimate key iv bs x).take y.length := by
    refine List.drop_left' ?_
    rw [List.length_append, hfront, h2, aesBlock]
    omega
  rw [aesCtsDecryptIv, lastBlockOffset, hlen, if_neg (by rw [aesBlock]; omega), if_neg (by rw [aesBlock]; omega)]
  dsimp only
  rw [hcount, Nat.add_sub_cancel, hcn1, show bs.length + 2 - 1 = bs.length + 1 from rfl, hcn2, hnext,
    List.append_assoc (front key iv bs).flatten, decryptPrefix_ok iv hk hbs]
  dsimp only
  rw [decryptTail_ok iv hk hbs hx hy']
  rw [List.append_assoc]

theorem cts_round_trip {p : Bytes} (h : aesBlock ≤ p.length) :
    ∃ ct next, aesCtsEncryptIv key iv p = (.ok ct, next) ∧ ct.length = p.length ∧
      aesCtsDecryptIv key iv ct = (.ok p, next) := by
  rcases Nat.eq_or_lt_of_le h with hone | hmany
  · -- a single block is not chained
    have hwhole : Whole 16 [p] := by
      intro b hb
      rw [List.mem_singleton.mp hb]
      exact hone.symm
    have henc := aesCbcEncrypt_ok hk zeroBlock.len hwhole
    have hcs : Whole 16 (cbc (aes key) zeroBlock.bytes [p]) := Cbc.whole_cbc zeroBlock.len hwhole
    have hdec : aesCbcDecrypt key zeroBlock.bytes (cbc (aes key) zeroBlock.bytes [p]).flatten =
        .ok [p].flatten := by
      rw [aesCbcDecrypt_ok hk _ hcs, Cbc.uncbc_cbc zeroBlock.len hwhole]
    have hlen : (cbc (aes key) zeroBlock.bytes [p]).flatten.length = aesBlock := by
      rw [flatten_length hcs, Cbc.cbc_length]
      rfl
    rw [List.flatten_singleton] at henc hdec
    refine ⟨_, iv, ?_, hlen.trans hone, ?_⟩
    · rw [aesCtsEncryptIv, if_neg (Nat.not_lt.mpr h), if_pos hone.symm, henc]
    · rw [aesCtsDecryptIv, if_neg (Nat.not_lt.mpr (Nat.le_of_eq hlen.symm)), if_pos hlen, hdec]
  · obtain ⟨bs, x, y, hbs, hx, hy, hy', rfl⟩ := exists_tail hmany
    obtain ⟨next, hnext, henc⟩ := aesCtsEncryptIv_ok iv hk hbs hx hy hy'
    refine ⟨_, next, henc, ?_, aesCtsDecryptIv_ok iv hk hbs hx hy hy' hnext⟩
    simp only [List.length_append, List.length_take, front_flatten_length key iv hbs, flatten_length hbs,
      penultimate_length key iv hbs hx, ultimate_length key iv hbs hx hy', hx]
    omega

theorem decryptPrefix_total (ct : Bytes) : ∃ r, decryptPrefix key iv ct ((ct.length + 15) / aesBlock) = .ok r := by
  unfold decryptPrefix
  split
  case isFalse => exact ⟨_, rfl⟩
  case isTrue hmany =>
    obtain ⟨bs, hbs, -, hflat⟩ := exists_blocks ((ct.length + 15) / aesBlock - 2)
      (ct.take (((ct.length + 15) / aesBlock - 2) * aesBlock)) (by
        rw [List.length_take, aesBlock]
        omega)
    dsimp only
    rw [hflat, aesCbcDecrypt_ok hk _ hbs]
    exact ⟨_, rfl⟩

theorem decryptTail_total {prevIv cn2 : Bytes} (cn1 : Block) (h : cn2.length ≤ 16) :
    ∃ plain, decryptTail key prevIv cn1.bytes cn2 = .ok plain := by
  have hdec := (aes key).dec_length cn1.bytes cn1.len
  have hlen : (cn2 ++ ((aes key).dec cn1.bytes).drop cn2.length).length = 16 := by
    rw [List.length_append, List.length_drop, hdec]
    omega
  rw [decryptTail, aesEcbDecryptBlock_ok hk cn1.len]
  show ∃ plain, (aesEcbDecryptBlock key _ >>= _) = .ok plain
  rw [aesEcbDecryptBlock_ok hk hlen]
  exact ⟨_, rfl⟩

theorem aesCtsDecryptIv_total {ct : Bytes} (h : aesBlock ≤ ct.length) : ∃ plain, aesCtsDecryptIv key iv ct =
      (.ok plain, if aesBlock < ct.length then blockAt ct (lastBlockOffset ct.length) else iv) := by
  rcases Nat.eq_or_lt_of_le h with hone | hmany
  · have hwhole : Whole 16 [ct] := by
      intro b hb
      rw [List.mem_singleton.mp hb]
      exact hone.symm
    have hdec := aesCbcDecrypt_ok hk zeroBlock.bytes hwhole
    rw [List.flatten_singleton] at hdec
    rw [aesCtsDecryptIv, if_neg (Nat.not_lt.mpr h), if_pos hone.symm, hdec, if_neg (by omega)]
    exact ⟨_, rfl⟩
  · obtain ⟨⟨plain, prevIv⟩, hblocks⟩ := decryptPrefix_total iv hk ct
    have hshort : (ct.drop (((ct.length + 15) / aesBlock - 1) * aesBlock)).length ≤ 16 := by
      rw [List.length_drop, aesBlock]
      omega
    obtain ⟨tail, htail⟩ := decryptTail_total hk (blockAt ct (lastBlockOffset ct.length)) hshort
    rw [aesCtsDecryptIv, if_neg (Nat.not_lt.mpr h), if_neg (Nat.ne_of_gt hmany), if_pos hmany]
    dsimp only
    rw [hblocks]
    dsimp only
    rw [htail]
    exact ⟨_, rfl⟩

end

/-! ## Chains of messages -/

/-- Messages handled in order, each from the state the one before it left; with every result its state. -/
def chained (f : Block → Bytes → Except CryptoError Bytes × Block) :
    Block → List Bytes → List (Except CryptoError Bytes × Block)
  | _, [] => []
  | iv, m :: ms => f iv m :: chained f (f iv m).2 ms

def results (outs : List Bytes) (states : List Block) : List (Except CryptoError Bytes × Block) :=
  List.zipWith (fun out state => (.ok out, state)) outs states

theorem cts_chain_round_trip [Primitives] {key : Bytes} (hk : knownKey key = true) (iv : Block) {ps : List Bytes}
    (h : ∀ p ∈ ps, aesBlock ≤ p.length) : ∃ (cts : List Bytes) (states : List Block), states.length = ps.length ∧
      chained (aesCtsEncryptIv key) iv ps = results cts states ∧
      cts.map List.length = ps.map List.length ∧
      chained (aesCtsDecryptIv key) iv cts = results ps states := by
  induction ps generalizing iv with
  | nil => exact ⟨[], [], rfl, rfl, rfl, rfl⟩
  | cons p ps ih =>
    obtain ⟨hp, hps⟩ := List.forall_mem_cons.mp h
    obtain ⟨ct, next, henc, hlen, hdec⟩ := cts_round_trip iv hk hp
    obtain ⟨cts, states, hstates, hencs, hlens, hdecs⟩ := ih next hps
    refine ⟨ct :: cts, next :: states, congrArg (· + 1) hstates, ?_, ?_, ?_⟩
    · rw [chained, henc]
      exact congrArg ((.ok ct, next) :: ·) hencs
    · rw [List.map_cons, List.map_cons, hlen, hlens]
    · rw [chained, hdec]
      exact congrArg ((.ok p, next) :: ·) hdecs

@[reducible] def constantPrimitives : Primitives where
  aes _ := ⟨List.reverse, List.reverse, fun _ h => List.length_reverse.trans h, fun _ h => List.length_reverse.trans h,
    fun b _ => List.reverse_reverse b⟩
  nfold _ := List.replicate 16 0
  nfold_length _ := List.length_replicate
  hmacSha1 _ _ := List.replicate 20 0
  hmacSha1_length _ _ := List.length_replicate
  hmacSha256 _ _ := List.replicate 32 0
  hmacSha256_length _ _ := List.length_replicate
  hmacSha384 _ _ := List.replicate 48 0
  hmacSha384_length _ _ := List.length_replicate

def threeMessages : List Bytes := [List.replicate 16 1, List.replicate 17 2, List.replicate 47 3]

theorem cts_chain_round_trip_three : ∃ (cts : List Bytes) (states : List Block), states.length = 3 ∧
      chained (@aesCtsEncryptIv constantPrimitives (List.replicate 16 7)) zeroBlock threeMessages = results cts states ∧
      cts.map List.length = [16, 17, 47] ∧
      chained (@aesCtsDecryptIv constantPrimitives (List.replicate 16 7)) zeroBlock cts = results threeMessages states :=
  @cts_chain_round_trip constantPrimitives (List.replicate 16 7) (by decide) zeroBlock threeMessages (by decide)

/-! ## Derived keys -/

variable {key : Bytes}

theorem knownKey_congr {k : Bytes} (hk : knownKey key = true) (h : k.length = key.length) : knownKey k = true := by
  rw [knownKey, h]
  exact hk

variable {usage : Int32}

theorem derivationConstant_ok (h : ¬ usage < 0) (purpose : UInt8) :
    derivationConstant usage purpose = .ok (be 4 usage.toUInt32.toNat ++ [purpose]) := if_neg h

section
variable [Primitives]

theorem dkLoop_ok (hk : knownKey key = true) (n : Nat) {block : Bytes} (h : block.length = 16) :
    ∃ result, dkLoop key n block = .ok result ∧ result.length = n * 16 := by
  induction n generalizing block with
  | zero => exact ⟨[], rfl, rfl⟩
  | succ n ih =>
    have henc := (aes key).enc_length block h
    obtain ⟨result, hloop, hlen⟩ := ih henc
    rw [dkLoop, aesEcbEncryptBlock_ok hk h]
    show ∃ result, (dkLoop key n _ >>= _) = .ok result ∧ _
    rw [hloop]
    refine ⟨_, rfl, ?_⟩
    rw [List.length_append, henc, hlen]
    omega

theorem deriveKey_ok (hk : knownKey key = true) (h : ¬ usage < 0) (purpose : UInt8) :
    ∃ k, deriveKey key usage purpose = .ok k ∧ k.length = key.length := by
  have hlen := of_decide_eq_true hk
  obtain ⟨result, hloop, hsize⟩ := dkLoop_ok hk ((key.length + 15) / aesBlock)
    (Primitives.nfold_length (be 4 usage.toUInt32.toNat ++ [purpose]))
  refine ⟨result.take key.length, ?_, ?_⟩
  · rw [deriveKey, derivationConstant_ok h]
    show dk key _ key.length = _
    have hparams : ¬ (be 4 usage.toUInt32.toNat ++ [purpose] = [] ∨ key.length = 0) := by
      rintro (hnil | hzero)
      · exact absurd (List.append_eq_nil_iff.mp hnil).2 (List.cons_ne_nil _ _)
      · omega
    rw [dk, if_neg hparams, hloop]
    rfl
  · rw [List.length_take, hsize, aesBlock]
    omega

theorem aesKeys_ok (hk : knownKey key = true) (h : ¬ usage < 0) :
    ∃ ke ki, aesKeys key usage key.length = .ok (ke, ki) ∧ knownKey ke = true := by
  obtain ⟨ke, hke, hlen⟩ := deriveKey_ok hk h 0xaa
  obtain ⟨ki, hki, -⟩ := deriveKey_ok hk h 0x55
  refine ⟨ke, ki, ?_, knownKey_congr hk hlen⟩
  rw [aesKeys, validateExactKeyLen, if_pos rfl]
  rw [hke]
  rw [hki]
  rfl

variable {expected keyLen : Nat} {h : Sha2Hash} {ct plain : Bytes} {state confounder next : Block}

theorem aesKeys_error (h : ¬ (key.length = expected ∧ ¬ usage < 0)) : ∃ e, aesKeys key usage expected = .error e := by
  unfold aesKeys validateExactKeyLen
  split
  case isFalse => exact ⟨_, rfl⟩
  case isTrue hlen =>
    have hneg := Classical.byContradiction fun hneg => h ⟨hlen, hneg⟩
    have hconst : derivationConstant usage 0xaa = .error .badParams := if_pos hneg
    rw [deriveKey, hconst]
    exact ⟨_, rfl⟩

theorem sha2Derive_ok (h : Sha2Hash) (hkey : key ≠ []) (husage : ¬ usage < 0)
    (purpose : UInt8) {out : Nat} (hpos : 0 < out) (hout : out ≤ h.hashLen) :
    ∃ k, sha2Derive h key usage purpose key.length out = .ok k ∧ k.length = out := by
  have hlen : ∀ data, (h.hmac key data).length = h.hashLen := by
    intro data
    cases h with
    | sha256 => exact Primitives.hmacSha256_length key data
    | sha384 => exact Primitives.hmacSha384_length key data
  refine ⟨(h.hmac key (be 4 1 ++ (be 4 usage.toUInt32.toNat ++ [purpose]) ++ [0] ++ [] ++
    be 4 (out * 8))).take (out * 8 / 8), ?_, ?_⟩
  · rw [sha2Derive, if_neg (by simp), derivationConstant_ok husage]
    show kdfHmacSha2 h key _ [] (out * 8) = _
    rw [kdfHmacSha2, if_neg (by simp [hkey]; omega)]
  · rw [List.length_take, hlen, Nat.mul_div_cancel _ (by decide)]
    omega

theorem sha2Derive_error (h : Sha2Hash) {purpose : UInt8} {out : Nat}
    (hbad : ¬ (key.length = keyLen ∧ ¬ usage < 0)) : ∃ e, sha2Derive h key usage purpose keyLen out = .error e := by
  unfold sha2Derive
  split
  case isTrue => exact ⟨_, rfl⟩
  case isFalse hlen =>
    have hneg := Classical.byContradiction fun hneg => hbad ⟨Classical.not_not.mp hlen, hneg⟩
    have hconst : derivationConstant usage purpose = .error .badParams := if_pos hneg
    rw [hconst]
    exact ⟨_, rfl⟩

def Suits (h : Sha2Hash) (keyLen : Nat) : Prop := (keyLen = 16 ∨ keyLen = 32) ∧ keyLen ≤ h.hashLen

theorem sha2Keys_ok (hsuits : Suits h key.length) (husage : ¬ usage < 0) :
    ∃ ke ki, sha2Ke h key usage key.length = .ok ke ∧ sha2Ki h key usage key.length = .ok ki ∧ knownKey ke = true := by
  have hkey : key ≠ [] := by
    rintro rfl
    rcases hsuits.1 with h | h <;> cases h
  obtain ⟨ke, hke, hlen⟩ := sha2Derive_ok h hkey husage 0xaa (by have := hsuits.1; omega) hsuits.2
  obtain ⟨ki, hki, -⟩ := sha2Derive_ok h hkey husage 0x55 (by cases h <;> decide) (Nat.div_le_self h.hashLen 2)
  refine ⟨ke, ki, hke, hki, decide_eq_true ?_⟩
  rw [hlen]
  exact hsuits.1

/-! ## Refused messages -/

def setState (ciphertext : Bytes) : Block :=
  blockAt (ciphertext.take (ciphertext.length - hmacTrailer)) (lastBlockOffset (ciphertext.length - hmacTrailer))

theorem aesDecrypt_state (hexpected : expected = 16 ∨ expected = 32) : (aesDecrypt key usage ct expected state).2 =
      if key.length = expected ∧ ¬ usage < 0 ∧ hmacTrailer + aesBlock < ct.length then setState ct else state := by
  unfold aesDecrypt
  by_cases hkeys : key.length = expected ∧ ¬ usage < 0
  · obtain ⟨rfl, husage⟩ := hkeys
    obtain ⟨ke, ki, heq, hke⟩ := aesKeys_ok (decide_eq_true hexpected) husage
    rw [heq]
    dsimp only
    split
    case isTrue hshort => rw [if_neg (by omega)]
    case isFalse hlong =>
      have htake : (ct.take (ct.length - hmacTrailer)).length = ct.length - hmacTrailer := by
        rw [List.length_take]
        omega
      have hbody : aesBlock ≤ (ct.take (ct.length - hmacTrailer)).length := by omega
      obtain ⟨plain, hdec⟩ := aesCtsDecryptIv_total state hke hbody
      rw [hdec, htake]
      by_cases hmany : hmacTrailer + aesBlock < ct.length
      · rw [if_pos (show aesBlock < ct.length - hmacTrailer by omega), if_pos ⟨rfl, husage, hmany⟩, setState]
      · rw [if_neg (show ¬ aesBlock < ct.length - hmacTrailer by omega), if_neg fun h => hmany h.2.2]
  · obtain ⟨e, heq⟩ := aesKeys_error hkeys
    rw [heq, if_neg fun h => hkeys ⟨h.1, h.2.1⟩]

theorem sha2Verify_length {ciphertext : Bytes}
    (hv : sha2Verify h key usage ciphertext keyLen state = .ok ct) : aesBlock ≤ ct.length := by
  unfold sha2Verify at hv
  split at hv
  case isTrue => cases hv
  case isFalse hlong =>
    obtain ⟨ki, -, hv⟩ := Wire.bind_eq_ok.mp hv
    split at hv
    case isFalse => cases hv
    case isTrue =>
      cases hv
      rw [List.length_take]
      omega

theorem sha2Decrypt_state {e : CryptoError} (hsuits : Suits h keyLen)
    (herror : (sha2Decrypt h key usage ct keyLen state).1 = .error e) :
    (sha2Decrypt h key usage ct keyLen state).2 = state := by
  unfold sha2Decrypt at herror ⊢
  cases hverify : sha2Verify h key usage ct keyLen state with
  | error e => rfl
  | ok body =>
    rw [hverify] at herror
    by_cases hkeys : key.length = keyLen ∧ ¬ usage < 0
    · obtain ⟨rfl, husage⟩ := hkeys
      obtain ⟨ke, ki, hke, -, hknown⟩ := sha2Keys_ok hsuits husage
      obtain ⟨plain, hdec⟩ := aesCtsDecryptIv_total state hknown (sha2Verify_length hverify)
      rw [hke] at herror
      dsimp only at herror
      rw [hdec] at herror
      cases herror
    · obtain ⟨e, hke⟩ := sha2Derive_error h hkeys
      rw [sha2Ke, hke]

/-- A message does not reach the state of an HMAC-SHA1 enctype, or sets it to what it was. -/
def Etype.Spared (e : Etype) (key : Bytes) (usage : Int32) (ct : Bytes) (state : Block) : Prop :=
  match e with
  | .aes128CtsHmacSha196 | .aes256CtsHmacSha196 =>
    key.length = e.keyLength ∧ ¬ usage < 0 ∧ hmacTrailer + aesBlock < ct.length → setState ct = state
  | .aes128CtsHmacSha256128 | .aes256CtsHmacSha384192 => True

theorem state_kept_iff {e : Etype} {err : CryptoError}
    (herror : (e.decryptWithState key usage ct state).1 = .error err) :
    (e.decryptWithState key usage ct state).2 = state ↔ e.Spared key usage ct state := by
  have hsha1 : ∀ expected, expected = 16 ∨ expected = 32 → ((aesDecrypt key usage ct expected state).2 = state ↔
      (key.length = expected ∧ ¬ usage < 0 ∧ hmacTrailer + aesBlock < ct.length → setState ct = state)) := by
    intro expected hexpected
    rw [aesDecrypt_state hexpected]
    split
    case isTrue hreach => exact ⟨fun h _ => h, fun h => h hreach⟩
    case isFalse hreach => exact ⟨fun _ h => absurd h hreach, fun _ => rfl⟩
  cases e with
  | aes128CtsHmacSha196 => exact hsha1 16 (.inl rfl)
  | aes256CtsHmacSha196 => exact hsha1 32 (.inr rfl)
  | aes128CtsHmacSha256128 => exact iff_of_true (sha2Decrypt_state ⟨.inl rfl, by decide⟩ herror) trivial
  | aes256CtsHmacSha384192 => exact iff_of_true (sha2Decrypt_state ⟨.inr rfl, by decide⟩ herror) trivial

/-! ## Genuine messages -/

theorem hmacSha196_length (key data : Bytes) : (hmacSha196 key data).length = 12 := by
  rw [hmacSha196, List.length_take, Primitives.hmacSha1_length]
  rfl

theorem aes_round_trip (hexpected : expected = 16 ∨ expected = 32)
    (h : aesEncrypt key usage confounder plain expected state = (.ok ct, next)) :
    aesDecrypt key usage ct expected state = (.ok plain, next) := by
  unfold aesEncrypt at h
  by_cases hkeys : key.length = expected ∧ ¬ usage < 0
  · obtain ⟨rfl, husage⟩ := hkeys
    obtain ⟨ke, ki, heq, hke⟩ := aesKeys_ok (decide_eq_true hexpected) husage
    have hdata : aesBlock ≤ (confounder.bytes ++ plain).length := by
      rw [List.length_append, confounder.len, aesBlock]
      omega
    obtain ⟨body, after, henc, hlen, hdec⟩ := cts_round_trip state hke hdata
    rw [heq] at h
    dsimp only at h
    rw [henc] at h
    cases h
    have htotal : (body ++ hmacSha196 ki (confounder.bytes ++ plain)).length - hmacTrailer = body.length := by
      rw [List.length_append, hmacSha196_length, hmacTrailer, Nat.add_sub_cancel]
    rw [aesDecrypt, heq]
    dsimp only
    rw [htotal, if_neg (by rw [List.length_append, hmacSha196_length, hmacTrailer]; omega), List.take_left,
      List.drop_left, hdec]
    dsimp only
    rw [checkTrailer, if_pos rfl, drop_confounder]
  · obtain ⟨e, heq⟩ := aesKeys_error hkeys
    rw [heq] at h
    cases h

theorem sha2Tag_length (h : Sha2Hash) (ki : Bytes) (state : Block) (ct : Bytes) :
    (sha2Tag h ki state ct).length = h.hashLen / 2 := by
  cases h with
  | sha256 => simp [sha2Tag, Sha2Hash.hmac, Sha2Hash.hashLen, Primitives.hmacSha256_length]
  | sha384 => simp [sha2Tag, Sha2Hash.hmac, Sha2Hash.hashLen, Primitives.hmacSha384_length]

theorem sha2_round_trip (hsuits : Suits h keyLen)
    (henc : sha2Encrypt h key usage confounder plain keyLen state = (.ok ct, next)) :
    sha2Decrypt h key usage ct keyLen state = (.ok plain, next) := by
  unfold sha2Encrypt at henc
  by_cases hkeys : key.length = keyLen ∧ ¬ usage < 0
  · obtain ⟨rfl, husage⟩ := hkeys
    obtain ⟨ke, ki, hke, hki, hknown⟩ := sha2Keys_ok hsuits husage
    have hdata : aesBlock ≤ (confounder.bytes ++ plain).length := by
      rw [List.length_append, confounder.len, aesBlock]
      omega
    obtain ⟨body, after, hcts, hlen, hdec⟩ := cts_round_trip state hknown hdata
    have hboth : sha2Keys h key usage key.length = .ok (ke, ki) := by
      rw [sha2Keys, hke]
      rw [hki]
      rfl
    rw [hboth] at henc
    dsimp only at henc
    rw [hcts] at henc
    cases henc
    have htotal : (body ++ sha2Tag h ki state body).length - h.hashLen / 2 = body.length := by
      rw [List.length_append, sha2Tag_length, Nat.add_sub_cancel]
    have hverify : sha2Verify h key usage (body ++ sha2Tag h ki state body) key.length state = .ok body := by
      rw [sha2Verify, if_neg (by rw [List.length_append, sha2Tag_length]; omega)]
      rw [hki, htotal]
      show (if sha2Tag h ki state ((body ++ sha2Tag h ki state body).take body.length) = _ then _ else _) = _
      rw [List.take_left, List.drop_left, if_pos rfl]
    rw [sha2Decrypt, hverify]
    rw [hke]
    dsimp only
    rw [hdec]
    dsimp only
    rw [drop_confounder]
  · obtain ⟨e, hke⟩ := sha2Derive_error h hkeys
    rw [sha2Keys, sha2Ke, hke] at henc
    cases henc

theorem decrypt_encrypt_with_state {e : Etype}
    (h : e.encryptWithState key usage confounder plain state = (.ok ct, next)) :
    e.decryptWithState key usage ct state = (.ok plain, next) := by
  cases e with
  | aes128CtsHmacSha196 => exact aes_round_trip (.inl rfl) h
  | aes256CtsHmacSha196 => exact aes_round_trip (.inr rfl) h
  | aes128CtsHmacSha256128 => exact sha2_round_trip ⟨.inl rfl, by decide⟩ h
  | aes256CtsHmacSha384192 => exact sha2_round_trip ⟨.inr rfl, by decide⟩ h

theorem decrypt_of_encrypt {e : Etype} (h : e.encrypt key usage confounder plain = .ok ct) :
    e.decrypt key usage ct = .ok plain :=
  congrArg Prod.fst (decrypt_encrypt_with_state (Prod.ext h rfl))

/-- Each enctype decrypts what it encrypts. -/
theorem encrypt_bind_decrypt (e : Etype) : (e.encrypt key usage confounder plain).bind (e.decrypt key usage) =
    (e.encrypt key usage confounder plain).map fun _ => plain := by
  cases h : e.encrypt key usage confounder plain with
  | error err => rfl
  | ok ct => exact decrypt_of_encrypt h

def Etype.profile (e : Etype) : EtypeProfile where
  encrypt key usage confounder plain := (e.encrypt key usage.toInt32 (blockAt confounder 0) plain).mapError CryptoError.text
  decrypt key usage cipher := (e.decrypt key usage.toInt32 cipher).mapError CryptoError.text

@[reducible] def registry : Crypto where
  findEtype etype := (findEtype etype).map Etype.profile
  decrypt_encrypt := by
    intro etype profile hfind key usage confounder plain cipher hcipher
    obtain ⟨e, -, rfl⟩ := Option.map_eq_some_iff.mp hfind
    unfold Etype.profile at hcipher ⊢
    cases henc : e.encrypt key usage.toInt32 (blockAt confounder 0) plain with
    | error err => simp [henc, Except.mapError] at hcipher
    | ok ct =>
      obtain rfl : ct = cipher := by simpa [henc, Except.mapError] using hcipher
      exact ⟨[], by simp [decrypt_of_encrypt henc, Except.mapError]⟩

end

end Enctypes

end Krb5Rs
