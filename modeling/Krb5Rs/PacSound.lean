import Krb5Rs.Pac
import Mathlib.Data.List.Nodup

/-!
# A signed PAC is accepted

The bytes of a PAC are its header and a row of cells, one for each buffer.
Signing edits cells and leaves the row as it is, so blanking the signatures
again gives back the bytes that were signed.
-/

namespace Krb5Rs

open Wire (Bytes le ofLe le_length ofLe_le bind_eq_ok)
open Utf8 (Str)

namespace Pac

/-! ## Cells -/

/-- A buffer: the size its entry gives, and its bytes up to the next buffer. The size is cut to
32 bits, so there may be more of them than padding explains. -/
structure Cell where
  ty : UInt32
  size : UInt32
  raw : Bytes

namespace Cell

def contents (c : Cell) : Bytes := c.raw.take c.size.toNat

def put (c : Cell) (bs : Bytes) : Cell := { c with raw := bs ++ c.raw.drop bs.length }

structure Ok (c : Cell) : Prop where
  size_le : c.size.toNat ≤ c.raw.length
  aligned : c.raw.length % 8 = 0

variable {c : Cell} {bs : Bytes}

theorem Ok.contents_length (h : c.Ok) : c.contents.length = c.size.toNat := by
  rw [contents, List.length_take, Nat.min_eq_left h.size_le]

theorem put_raw_length (h : bs.length ≤ c.raw.length) : (c.put bs).raw.length = c.raw.length := by
  simp only [put, List.length_append, List.length_drop]
  omega

theorem put_contents (h : bs.length = c.size.toNat) : (c.put bs).contents = bs := by
  simp only [put, contents, ← h, List.take_left]

theorem put_put (c : Cell) {bs' : Bytes} (h : bs.length = bs'.length) : (c.put bs).put bs' = c.put bs' := by
  simp only [put, ← h, List.drop_left]

theorem Ok.put (h : c.Ok) (hbs : bs.length ≤ c.raw.length) : (c.put bs).Ok where
  size_le := by
    rw [put_raw_length hbs]
    exact h.size_le
  aligned := by
    rw [put_raw_length hbs]
    exact h.aligned

end Cell

def infos : Nat → List Cell → List PacInfo
  | _, [] => []
  | start, c :: cs => ⟨c.ty, c.size, start⟩ :: infos (start + c.raw.length) cs

def headerLength (cells : List Cell) : Nat := 8 + cells.length * 16

def table (cells : List Cell) : List PacInfo := infos (headerLength cells) cells

def layout (cells : List Cell) : Pac :=
  ⟨header (table cells) ++ cells.flatMap Cell.raw, table cells⟩

@[simp] theorem infos_length (start : Nat) (cells : List Cell) : (infos start cells).length = cells.length := by
  induction cells generalizing start with
  | nil => rfl
  | cons c cs ih => simp [infos, ih]

theorem infoBytes_length (b : PacInfo) : (infoBytes b).length = 16 := by
  simp [infoBytes]

theorem flatMap_infoBytes_length (l : List PacInfo) : (l.flatMap infoBytes).length = l.length * 16 := by
  induction l with
  | nil => rfl
  | cons b l ih =>
    rw [List.flatMap_cons, List.length_append, ih, infoBytes_length, List.length_cons]
    omega

theorem header_length (l : List PacInfo) : (header l).length = 8 + l.length * 16 := by
  simp only [header, List.length_append, le_length, flatMap_infoBytes_length]

theorem layout_header_length (cells : List Cell) : (header (table cells)).length = headerLength cells := by
  rw [header_length, table, infos_length, headerLength]

theorem infos_append (start : Nat) (cs ds : List Cell) :
    infos start (cs ++ ds) = infos start cs ++ infos (start + (cs.flatMap Cell.raw).length) ds := by
  induction cs generalizing start with
  | nil => rfl
  | cons c cs ih =>
    rw [List.cons_append, infos, ih, infos, List.flatMap_cons, List.length_append, List.cons_append, Nat.add_assoc]

theorem infos_shift (start : Nat) (cells : List Cell) : (infos start cells).map shiftInfo = infos (start + 16) cells := by
  induction cells generalizing start with
  | nil => rfl
  | cons c cs ih =>
    rw [infos, List.map_cons, ih, infos, Nat.add_right_comm]
    rfl

/-! ## Overwriting -/

theorem overwrite_middle (pre old post bs : Bytes) (h : bs.length = old.length) :
    overwrite (pre ++ old ++ post) pre.length bs = pre ++ bs ++ post := by
  have htake : (pre ++ old ++ post).take pre.length = pre := by
    rw [List.append_assoc, List.take_left]
  have hdrop : (pre ++ old ++ post).drop (pre.length + bs.length) = post := by
    rw [h, ← List.length_append, List.drop_left]
  unfold overwrite
  rw [htake, hdrop]

theorem slice_middle (pre mid post : Bytes) : slice (pre ++ mid ++ post) pre.length mid.length = mid := by
  unfold slice
  rw [List.append_assoc, List.drop_left, List.take_left]

/-! ## Adding a buffer -/

variable {cells cells' : List Cell} {ty ty' t : UInt32} {c : Cell} {pac : Pac} {bs bs' data body tail old sum : Bytes} {len start : Nat}
  {b : PacInfo} {tys : List UInt32} {key privsvrKey serverKey : EncryptionKey} {isService withRealm : Bool} {realm : Str}
  {authtime : Int}

theorem filter_infos (ty : UInt32) (start : Nat) (h : ty ∉ cells.map Cell.ty) :
    (infos start cells).filter (·.ty = ty) = [] := by
  induction cells generalizing start with
  | nil => rfl
  | cons c cs ih =>
    rw [List.map_cons, List.mem_cons, not_or] at h
    rw [infos, List.filter_cons_of_neg (by simpa using Ne.symm h.1), ih _ h.2]

theorem locate_absent (h : ty ∉ cells.map Cell.ty) : locate (layout cells) ty = .error .noEntry := by
  unfold locate layout table
  rw [filter_infos ty _ h]

theorem locate_cell {pre post : List Cell} (h : ((pre ++ c :: post).map Cell.ty).Nodup) :
    locate (layout (pre ++ c :: post)) c.ty =
      .ok ⟨c.ty, c.size, headerLength (pre ++ c :: post) + (pre.flatMap Cell.raw).length⟩ := by
  rw [List.map_append, List.map_cons, List.nodup_middle, List.nodup_cons, List.mem_append, not_or] at h
  unfold locate layout table
  rw [infos_append, infos, List.filter_append, filter_infos _ _ h.1.1, List.nil_append,
    List.filter_cons_of_pos (by simp), filter_infos _ _ h.1.2]

def added (ty : UInt32) (body : Bytes) : Cell :=
  ⟨ty, UInt32.ofNat body.length, body ++ List.replicate ((8 - body.length % 8) % 8) 0⟩

theorem added_ok (ty : UInt32) (body : Bytes) : (added ty body).Ok where
  size_le := by
    simp only [added, UInt32.toNat_ofNat', List.length_append]
    omega
  aligned := by
    simp only [added, List.length_append, List.length_replicate]
    omega

structure Row (cells : List Cell) : Prop where
  types : (cells.map Cell.ty).Nodup
  ok : ∀ c ∈ cells, c.Ok
  count : cells.length ≤ maxBuffers
  fits : (layout cells).data.length < 2 ^ 63

theorem layout_data_length (cells : List Cell) :
    (layout cells).data.length = headerLength cells + (cells.flatMap Cell.raw).length := by
  simp only [layout, List.length_append, layout_header_length]

theorem syncHeader_layout (cells : List Cell) : syncHeader (layout cells) = layout cells := by
  unfold syncHeader layout
  rw [← header_length, List.drop_left]

theorem locate_isOk (h : (cells.map Cell.ty).Nodup) (ty : UInt32) :
    (locate (layout cells) ty).isOk = true ↔ ty ∈ cells.map Cell.ty := by
  by_cases hty : ty ∈ cells.map Cell.ty
  · obtain ⟨c, hc, rfl⟩ := List.mem_map.mp hty
    obtain ⟨pre, post, rfl⟩ := List.append_of_mem hc
    rw [locate_cell h]
    simp [Except.isOk, Except.toBool]
  · rw [locate_absent hty]
    simp [Except.isOk, Except.toBool, hty]

theorem drop_moved (cells : List Cell) (tail : Bytes) :
    ((layout cells).data.take (headerLength cells) ++ List.replicate 16 0 ++
      (layout cells).data.drop (headerLength cells) ++ tail).drop (headerLength cells + 16) =
      cells.flatMap Cell.raw ++ tail := by
  have hdrop : (layout cells).data.drop (headerLength cells) = cells.flatMap Cell.raw := by
    rw [← layout_header_length]
    exact List.drop_left
  have hfront : ((layout cells).data.take (headerLength cells) ++ List.replicate 16 (0 : UInt8)).length =
      headerLength cells + 16 := by
    rw [List.length_append, List.length_take, layout_data_length, List.length_replicate]
    omega
  rw [hdrop, List.append_assoc, ← hfront, List.drop_left]

theorem headerLength_snoc (cells : List Cell) (c : Cell) : headerLength (cells ++ [c]) = headerLength cells + 16 := by
  simp only [headerLength, List.length_append, List.length_singleton]
  omega

theorem table_snoc (cells : List Cell) (c : Cell) : table (cells ++ [c]) = (table cells).map shiftInfo ++
      [⟨c.ty, c.size, headerLength cells + 16 + (cells.flatMap Cell.raw).length⟩] := by
  rw [table, infos_append, headerLength_snoc, table, infos_shift]
  rfl

theorem addBuffer_layout (h : Row cells) (hadd : addBuffer (layout cells) ty body = .ok pac) :
    ty ∉ cells.map Cell.ty ∧ pac = layout (cells ++ [added ty body]) ∧ Row (cells ++ [added ty body]) := by
  have hcount : (layout cells).buffers.length = cells.length := infos_length ..
  have hmoved : ((layout cells).data.take (headerLength cells) ++ List.replicate 16 (0 : UInt8) ++
      (layout cells).data.drop (headerLength cells)).length =
      headerLength cells + 16 + (cells.flatMap Cell.raw).length := by
    simp only [List.length_append, List.length_take, List.length_drop, List.length_replicate, layout_data_length]
    omega
  unfold addBuffer at hadd
  split at hadd
  · cases hadd
  rename_i habsent
  rw [locate_isOk h.types] at habsent
  split at hadd
  · cases hadd
  rename_i hroom
  dsimp only at hadd
  rw [hcount] at hadd hroom
  split at hadd
  · cases hadd
  rename_i hfits
  have hpac : pac = layout (cells ++ [added ty body]) := by
    rw [← Except.ok.inj hadd]
    unfold syncHeader
    have htable : (layout cells).buffers.map shiftInfo ++ [⟨ty, UInt32.ofNat body.length, ((layout cells).data.take
        (8 + cells.length * 16) ++ List.replicate 16 (0 : UInt8) ++
        (layout cells).data.drop (8 + cells.length * 16)).length⟩] = table (cells ++ [added ty body]) := by
      rw [table_snoc]
      exact congrArg (fun n => (table cells).map shiftInfo ++ [⟨ty, UInt32.ofNat body.length, n⟩]) hmoved
    have hlen : 8 + (table (cells ++ [added ty body])).length * 16 = headerLength cells + 16 := by
      rw [table, infos_length]
      exact headerLength_snoc ..
    rw [htable, hlen, List.append_assoc _ body]
    congr 2
    exact (drop_moved cells _).trans (by simp [added])
  refine ⟨habsent, hpac, ?_, ?_, ?_, ?_⟩
  · rw [List.map_append, List.nodup_append]
    refine ⟨h.types, by simp, ?_⟩
    intro a ha b hb
    rw [List.map_singleton, List.mem_singleton] at hb
    subst hb
    intro heq
    exact habsent (heq ▸ ha)
  · intro c hc
    rcases List.mem_append.mp hc with hc | hc
    · exact h.ok c hc
    · rw [List.mem_singleton.mp hc]
      exact added_ok ty body
  · rw [List.length_append, List.length_singleton]
    omega
  · rw [List.length_append, List.length_append] at hfits
    rw [layout_data_length, headerLength_snoc, List.flatMap_append, List.length_append]
    unfold headerLength at hmoved ⊢
    simp only [List.flatMap_singleton, added, List.length_append]
    omega

/-! ## Edits -/

def edit (ty : UInt32) (bs : Bytes) (cells : List Cell) : List Cell :=
  cells.map fun c => if c.ty = ty then c.put bs else c

def Holds (cells : List Cell) (ty : UInt32) (bs : Bytes) : Prop := ∃ c ∈ cells, c.ty = ty ∧ c.contents = bs

theorem edit_of_not_mem (h : ty ∉ cells.map Cell.ty) (bs : Bytes) : edit ty bs cells = cells := by
  conv_rhs => rw [← List.map_id cells]
  apply List.map_congr_left
  intro c hc
  have hne : c.ty ≠ ty := by
    intro heq
    exact h (List.mem_map.mpr ⟨c, hc, heq⟩)
  rw [if_neg hne]
  rfl

theorem edit_middle {pre post : List Cell} (h : ((pre ++ c :: post).map Cell.ty).Nodup) (bs : Bytes) :
    edit c.ty bs (pre ++ c :: post) = pre ++ c.put bs :: post := by
  rw [List.map_append, List.map_cons, List.nodup_middle, List.nodup_cons, List.mem_append, not_or] at h
  have hpre := edit_of_not_mem h.1.1 bs
  have hpost := edit_of_not_mem h.1.2 bs
  unfold edit at hpre hpost ⊢
  rw [List.map_append, List.map_cons, hpre, hpost, if_pos rfl]

theorem edit_types (ty : UInt32) (bs : Bytes) (cells : List Cell) : (edit ty bs cells).map Cell.ty = cells.map Cell.ty := by
  unfold edit
  rw [List.map_map]
  apply List.map_congr_left
  intro c _
  by_cases h : c.ty = ty
  · simp [h, Cell.put]
  · simp [h]

theorem Row.split (h : Row cells) (hold : Holds cells ty bs) :
    ∃ pre c post, cells = pre ++ c :: post ∧ c.ty = ty ∧ c.Ok ∧ bs.length = c.size.toNat ∧
      c.raw = bs ++ c.raw.drop bs.length := by
  obtain ⟨c, hc, hty, rfl⟩ := hold
  obtain ⟨pre, post, rfl⟩ := List.append_of_mem hc
  have hlen := (h.ok c hc).contents_length
  refine ⟨pre, c, post, rfl, hty, h.ok c hc, hlen, ?_⟩
  rw [hlen, Cell.contents, List.take_append_drop]

theorem table_middle (pre post : List Cell) {d : Cell} (hty : d.ty = c.ty) (hsize : d.size = c.size)
    (hraw : d.raw.length = c.raw.length) : table (pre ++ d :: post) = table (pre ++ c :: post) := by
  have hh : headerLength (pre ++ d :: post) = headerLength (pre ++ c :: post) := by simp [headerLength]
  unfold table
  rw [hh, infos_append, infos_append, infos, infos, hty, hsize, hraw]

theorem overwrite_layout (h : Row cells) {a z : Bytes} (hold : Holds cells ty (a ++ old ++ z))
    (bs : Bytes) (hbs : bs.length = old.length) :
    ∃ b, locate (layout cells) ty = .ok b ∧ b.size.toNat = (a ++ old ++ z).length ∧
      (⟨overwrite (layout cells).data (b.offset + a.length) bs, (layout cells).buffers⟩ : Pac) =
        layout (edit ty (a ++ bs ++ z) cells) := by
  obtain ⟨pre, c, post, rfl, rfl, hok, hsize, hraw⟩ := h.split hold
  have hlen : (a ++ bs ++ z).length = (a ++ old ++ z).length := by
    simp only [List.length_append, hbs]
  have hle : (a ++ bs ++ z).length ≤ c.raw.length := by
    rw [hlen, hsize]
    exact hok.size_le
  have htable := table_middle pre post (c := c) (d := c.put (a ++ bs ++ z)) rfl rfl (Cell.put_raw_length hle)
  refine ⟨_, locate_cell h.types, hsize.symm, ?_⟩
  rw [edit_middle h.types]
  unfold layout
  rw [htable]
  congr 1
  have hput : (c.put (a ++ bs ++ z)).raw = a ++ bs ++ (z ++ c.raw.drop (a ++ old ++ z).length) := by
    rw [Cell.put, hlen, List.append_assoc (a ++ bs)]
  have hstart : headerLength (pre ++ c :: post) + (pre.flatMap Cell.raw).length + a.length =
      (header (table (pre ++ c :: post)) ++ pre.flatMap Cell.raw ++ a).length := by
    simp only [List.length_append, layout_header_length]
  have hmid := overwrite_middle (header (table (pre ++ c :: post)) ++ pre.flatMap Cell.raw ++ a) old
    (z ++ c.raw.drop (a ++ old ++ z).length ++ post.flatMap Cell.raw) bs hbs
  rw [hstart, List.flatMap_append, List.flatMap_cons, List.flatMap_append, List.flatMap_cons, hput]
  conv_lhs => rw [hraw]
  simpa only [List.append_assoc] using hmid

theorem getBuffer_layout (h : Row cells) (hold : Holds cells ty bs) : getBuffer (layout cells) ty = .ok bs := by
  obtain ⟨pre, c, post, rfl, rfl, -, hsize, hraw⟩ := h.split hold
  unfold getBuffer
  rw [locate_cell h.types]
  show Except.ok (contents _ _) = _
  have hstart : headerLength (pre ++ c :: post) + (pre.flatMap Cell.raw).length =
      (header (table (pre ++ c :: post)) ++ pre.flatMap Cell.raw).length := by
    rw [List.length_append, layout_header_length]
  have hmid := slice_middle (header (table (pre ++ c :: post)) ++ pre.flatMap Cell.raw) bs
    (c.raw.drop bs.length ++ post.flatMap Cell.raw)
  unfold contents layout
  rw [hstart, ← hsize, List.flatMap_append, List.flatMap_cons]
  conv_lhs => rw [hraw]
  congr 1
  simpa only [List.append_assoc] using hmid

theorem edit_self (h : Row cells) (hold : Holds cells ty bs) : edit ty bs cells = cells := by
  obtain ⟨pre, c, post, rfl, rfl, hok, hsize, hraw⟩ := h.split hold
  have hput : c.put bs = c := by
    rw [Cell.put, ← hraw]
  rw [edit_middle h.types, hput]

theorem edit_edit (ty : UInt32) (h : bs.length = bs'.length) (cells : List Cell) :
    edit ty bs' (edit ty bs cells) = edit ty bs' cells := by
  unfold edit
  rw [List.map_map]
  apply List.map_congr_left
  intro c _
  by_cases hty : c.ty = ty
  · have hty' : (c.put bs).ty = ty := hty
    simp only [Function.comp_apply, hty, if_true, hty', Cell.put_put c h]
  · simp [hty]

theorem edit_comm (hne : ty ≠ ty') (bs bs' : Bytes) (cells : List Cell) :
    edit ty bs (edit ty' bs' cells) = edit ty' bs' (edit ty bs cells) := by
  unfold edit
  rw [List.map_map, List.map_map]
  apply List.map_congr_left
  intro c _
  by_cases hty : c.ty = ty
  · have hty' := fun h => hne (hty.symm.trans h)
    have hput : ¬ (c.put bs).ty = ty' := hty'
    rw [Function.comp_apply, Function.comp_apply, if_neg hty', if_pos hty, if_neg hput]
  · by_cases hty' : c.ty = ty'
    · have hput : ¬ (c.put bs').ty = ty := hty
      rw [Function.comp_apply, Function.comp_apply, if_pos hty', if_neg hput, if_neg hty, if_pos hty']
    · simp [hty, hty']

theorem holds_edit_self (h : Row cells) (hold : Holds cells ty bs) (hlen : bs'.length = bs.length) :
    Holds (edit ty bs' cells) ty bs' := by
  obtain ⟨pre, c, post, rfl, rfl, -, hsize, -⟩ := h.split hold
  rw [edit_middle h.types]
  exact ⟨c.put bs', by simp, rfl, Cell.put_contents (hlen.trans hsize)⟩

theorem holds_edit_other (hne : ty' ≠ ty) (bs' : Bytes) (hold : Holds cells ty bs) :
    Holds (edit ty' bs' cells) ty bs := by
  obtain ⟨c, hc, rfl, rfl⟩ := hold
  refine ⟨c, ?_, rfl, rfl⟩
  exact List.mem_map.mpr ⟨c, hc, if_neg hne.symm⟩

theorem Row.edit (h : Row cells) (hold : Holds cells ty bs) (hlen : bs'.length = bs.length) :
    Row (edit ty bs' cells) := by
  obtain ⟨pre, c, post, rfl, rfl, hok, hsize, -⟩ := h.split hold
  have hle : bs'.length ≤ c.raw.length := by
    rw [hlen, hsize]
    exact hok.size_le
  refine ⟨by rw [edit_types]; exact h.types, ?_, ?_, ?_⟩
  · rw [edit_middle h.types]
    intro d hd
    rcases List.mem_append.mp hd with hd | hd
    · exact h.ok d (List.mem_append_left _ hd)
    · rcases List.mem_cons.mp hd with rfl | hd
      · exact hok.put hle
      · exact h.ok d (List.mem_append_right _ (List.mem_cons_of_mem _ hd))
  · rw [edit_middle h.types]
    simpa using h.count
  · have hfits := h.fits
    rw [edit_middle h.types, layout_data_length]
    rw [layout_data_length] at hfits
    simp only [headerLength, List.flatMap_append, List.flatMap_cons, List.length_append, List.length_cons,
      Cell.put_raw_length hle] at hfits ⊢
    exact hfits

/-! ## Parsing -/

theorem slice_of_eq {mid : Bytes} (pre post : Bytes) (h : data = pre ++ mid ++ post)
    (hstart : pre.length = start) (hlen : mid.length = len) : slice data start len = mid := by
  subst hstart hlen
  rw [h, slice_middle]

theorem le32_of_eq {n : UInt32} (pre post : Bytes) (h : data = pre ++ le 4 n.toNat ++ post)
    (hstart : pre.length = start) : le32 data start = n := by
  unfold le32
  rw [slice_of_eq pre post h hstart (le_length ..), ofLe_le _ _ (by have := n.toNat_lt; omega), UInt32.ofNat_toNat]

theorem mem_infos (h : b ∈ infos start cells) :
    ∃ pre c post, cells = pre ++ c :: post ∧ b = ⟨c.ty, c.size, start + (pre.flatMap Cell.raw).length⟩ := by
  induction cells generalizing start with
  | nil => cases h
  | cons c cs ih =>
    rcases List.mem_cons.mp h with rfl | h
    · exact ⟨[], c, cs, rfl, rfl⟩
    · obtain ⟨pre, d, post, rfl, rfl⟩ := ih h
      refine ⟨c :: pre, d, post, rfl, ?_⟩
      rw [List.flatMap_cons, List.length_append, Nat.add_assoc]

theorem flatMap_raw_aligned (h : ∀ c ∈ cells, c.Ok) : (cells.flatMap Cell.raw).length % 8 = 0 := by
  induction cells with
  | nil => rfl
  | cons c cs ih =>
    obtain ⟨hc, hcs⟩ := List.forall_mem_cons.mp h
    have := hc.aligned
    have := ih hcs
    rw [List.flatMap_cons, List.length_append]
    omega

theorem Row.entry (h : Row cells) (hb : b ∈ table cells) :
    b.offset % 8 = 0 ∧ headerLength cells ≤ b.offset ∧ b.offset + b.size.toNat ≤ (layout cells).data.length := by
  obtain ⟨pre, c, post, rfl, rfl⟩ := mem_infos hb
  have hpre := flatMap_raw_aligned fun d hd => h.ok d (List.mem_append_left _ hd)
  have hsize := (h.ok c (by simp)).size_le
  rw [layout_data_length]
  simp only [headerLength, List.flatMap_append, List.flatMap_cons, List.length_append, List.length_cons]
  omega

def checkInfo (len headerLen : Nat) (info : PacInfo) : Except PacError PacInfo :=
  if info.offset % 8 ≠ 0 then .error (.invalid "unaligned buffer")
  else if info.offset < headerLen ∨ len < info.offset ∨ len - info.offset < info.size.toNat then .error .range
  else .ok info

theorem checkInfo_eq_ok {headerLen : Nat} {info : PacInfo} : checkInfo len headerLen info = .ok b ↔
      info = b ∧ info.offset % 8 = 0 ∧ headerLen ≤ info.offset ∧ info.offset + info.size.toNat ≤ len := by
  unfold checkInfo
  split
  case isTrue h => simp [h]
  case isFalse h =>
    split
    case isTrue h' =>
      simp only [reduceCtorEq, false_iff, not_and]
      omega
    case isFalse h' =>
      rw [Except.ok.injEq]
      constructor
      · intro heq
        exact ⟨heq, by omega, by omega, by omega⟩
      · exact fun heq => heq.1

theorem parseInfo_header {pre post : List PacInfo}
    (h : data = header (pre ++ b :: post) ++ tail) (hoffset : b.offset < 2 ^ 64) (headerLen : Nat) :
    parseInfo data headerLen pre.length = checkInfo data.length headerLen b := by
  have hdata : data = (le 4 (pre ++ b :: post).length ++ le 4 0 ++ pre.flatMap infoBytes) ++
      infoBytes b ++ (post.flatMap infoBytes ++ tail) := by
    simp only [h, header, List.flatMap_append, List.flatMap_cons, List.append_assoc]
  have hstart : (le 4 (pre ++ b :: post).length ++ le 4 0 ++ pre.flatMap infoBytes).length = 8 + pre.length * 16 := by
    simp only [List.length_append, le_length, flatMap_infoBytes_length]
  generalize le 4 (pre ++ b :: post).length ++ le 4 0 ++ pre.flatMap infoBytes = front at hdata hstart
  generalize post.flatMap infoBytes ++ tail = back at hdata
  have hty : le32 data (8 + pre.length * 16) = b.ty := by
    refine le32_of_eq front (le 4 b.size.toNat ++ le 8 b.offset ++ back) ?_ hstart
    rw [hdata, infoBytes]
    simp only [List.append_assoc]
  have hsize : le32 data (8 + pre.length * 16 + 4) = b.size := by
    refine le32_of_eq (front ++ le 4 b.ty.toNat) (le 8 b.offset ++ back) ?_ (by simp [hstart])
    rw [hdata, infoBytes]
    simp only [List.append_assoc]
  have hoff : ofLe (slice data (8 + pre.length * 16 + 8) 8) = b.offset := by
    have hslice : slice data (8 + pre.length * 16 + 8) 8 = le 8 b.offset := by
      refine slice_of_eq (front ++ le 4 b.ty.toNat ++ le 4 b.size.toNat) back ?_
        (by simp [hstart]) (le_length ..)
      rw [hdata, infoBytes]
      simp only [List.append_assoc]
    rw [hslice, ofLe_le _ _ (by omega)]
  unfold parseInfo checkInfo
  dsimp only
  rw [hty, hsize, hoff]

theorem mapM_range_eq {α β ε : Type} {f : Nat → Except ε β} {g : α → Except ε β} (l : List α) :
    ∀ start, (∀ pre a post, l = pre ++ a :: post → f (start + pre.length) = g a) →
      (List.range' start l.length).mapM f = l.mapM g := by
  induction l with
  | nil =>
    intro start _
    rfl
  | cons a l ih =>
    intro start h
    have hrest := ih (start + 1) fun pre b post hl => by
      have := h (a :: pre) b post (by rw [hl]; rfl)
      rwa [List.length_cons, Nat.add_comm pre.length, ← Nat.add_assoc] at this
    rw [List.length_cons, List.range'_succ, List.mapM_cons, List.mapM_cons, hrest, ← h [] a l rfl]
    rfl

theorem parse_header {buffers : List PacInfo} (h : data = header buffers ++ tail)
    (hne : buffers ≠ []) (hcount : buffers.length ≤ maxBuffers) (hoffset : ∀ b ∈ buffers, b.offset < 2 ^ 64) :
    parse data = .ok pac ↔ pac = ⟨data, buffers⟩ ∧ ∀ b ∈ buffers,
      b.offset % 8 = 0 ∧ 8 + buffers.length * 16 ≤ b.offset ∧ b.offset + b.size.toNat ≤ data.length := by
  have hpos := List.length_pos_iff.mpr hne
  have hmax : maxBuffers = 4096 := rfl
  have hn : (UInt32.ofNat buffers.length).toNat = buffers.length :=
    UInt32.toNat_ofNat_of_lt' (by simp only [UInt32.size]; omega)
  have hlen : data.length = 8 + buffers.length * 16 + tail.length := by
    rw [h, List.length_append, header_length]
  have hnum : le32 data 0 = UInt32.ofNat buffers.length := by
    refine le32_of_eq [] (le 4 0 ++ (buffers.flatMap infoBytes ++ tail)) ?_ rfl
    rw [h, hn, header]
    simp only [List.append_assoc, List.nil_append]
  have hver : le32 data 4 = 0 := by
    refine le32_of_eq (n := 0) (le 4 buffers.length) (buffers.flatMap infoBytes ++ tail) ?_ (le_length ..)
    rw [h, header]
    rfl
  have hmap : (List.range buffers.length).mapM (parseInfo data (8 + buffers.length * 16)) =
      buffers.mapM (checkInfo data.length (8 + buffers.length * 16)) := by
    rw [List.range_eq_range']
    refine mapM_range_eq buffers 0 fun pre b post hbuffers => ?_
    rw [Nat.zero_add]
    exact parseInfo_header (hbuffers ▸ h) (hoffset b (by simp [hbuffers])) _
  unfold parse
  rw [hnum, hn, if_neg (by omega), hver, if_neg (by simp), if_neg (by omega), if_neg (by omega), hmap,
    bind_eq_ok]
  constructor
  · rintro ⟨found, hfound, hpac⟩
    cases hpac
    have hsame := Wire.eq_map_of_mapM (g := id) (fun a b hab => (checkInfo_eq_ok.mp hab).1.symm) hfound
    rw [List.map_id] at hsame
    refine ⟨by rw [hsame], fun b hb => ?_⟩
    obtain ⟨found, hb⟩ := Wire.exists_of_mapM hfound b hb
    exact (checkInfo_eq_ok.mp hb).2
  · rintro ⟨rfl, hall⟩
    refine ⟨buffers, ?_, rfl⟩
    have hok := Wire.mapM_eq_map (g := id) fun b hb => checkInfo_eq_ok.mpr ⟨rfl, hall b hb⟩
    rwa [List.map_id] at hok

theorem parse_layout (h : Row cells) (hne : cells ≠ []) : parse (layout cells).data = .ok (layout cells) := by
  have hlen : (table cells).length = cells.length := infos_length ..
  have hfits := h.fits
  refine (parse_header rfl ?_ (hlen ▸ h.count) fun b hb => ?_).mpr ⟨rfl, fun b hb => ?_⟩
  · intro hnil
    rw [hnil] at hlen
    exact hne (List.length_eq_zero_iff.mp hlen.symm)
  · have := (h.entry hb).2.2
    omega
  · have := h.entry hb
    rwa [headerLength, ← hlen] at this

/-! ## Signatures -/

def signature (cksumtype : UInt32) (sum : Bytes) : Bytes := le 4 cksumtype.toNat ++ sum

def blank (cksumtype : UInt32) (len : Nat) : Bytes := signature cksumtype (List.replicate len 0)

@[simp] theorem signature_length (t : UInt32) (sum : Bytes) : (signature t sum).length = 4 + sum.length := by
  simp [signature]

@[simp] theorem blank_length (t : UInt32) (len : Nat) : (blank t len).length = 4 + len := by
  simp [blank]

def apart (tys : List UInt32) (cells : List Cell) : List Cell := cells.filter (·.ty ∉ tys)

theorem apart_edit (h : ty ∈ tys) (bs : Bytes) (cells : List Cell) :
    apart tys (edit ty bs cells) = apart tys cells := by
  induction cells with
  | nil => rfl
  | cons c cs ih =>
    unfold apart edit at ih ⊢
    rw [List.map_cons]
    by_cases hty : c.ty = ty
    · have hput : (c.put bs).ty = ty := hty
      rw [if_pos hty, List.filter_cons_of_neg (by simp [hput, h]), List.filter_cons_of_neg (by simp [hty, h]), ih]
    · rw [if_neg hty, List.filter_cons, List.filter_cons, ih]

theorem apart_added (h : ty ∈ tys) (body : Bytes) (cells : List Cell) :
    apart tys (cells ++ [added ty body]) = apart tys cells := by
  simp [apart, added, h]

theorem apart_mono {tys' : List UInt32} (h : ∀ ty ∈ tys, ty ∈ tys')
    (hap : apart tys cells' = apart tys cells) : apart tys' cells' = apart tys' cells := by
  have hsub (l : List Cell) : apart tys' (apart tys l) = apart tys' l := by
    unfold apart
    rw [List.filter_filter]
    apply List.filter_congr
    intro c _
    by_cases hc : c.ty ∈ tys
    · simp [h _ hc]
    · simp [hc]
  rw [← hsub cells', hap, hsub]

theorem Holds.of_apart (hap : apart tys cells' = apart tys cells) (hty : ty ∉ tys)
    (h : Holds cells ty bs) : Holds cells' ty bs := by
  obtain ⟨c, hc, rfl, rfl⟩ := h
  have hmem : c ∈ apart tys cells' := by
    rw [hap]
    exact List.mem_filter.mpr ⟨hc, by simpa using hty⟩
  exact ⟨c, (List.mem_filter.mp hmem).1, rfl, rfl⟩

theorem table_edit (h : Row cells) (hold : Holds cells ty bs) (hlen : bs'.length = bs.length) :
    table (edit ty bs' cells) = table cells := by
  obtain ⟨pre, c, post, rfl, rfl, hok, hsize, -⟩ := h.split hold
  have hle : bs'.length ≤ c.raw.length := by
    rw [hlen, hsize]
    exact hok.size_le
  rw [edit_middle h.types]
  exact table_middle pre post rfl rfl (Cell.put_raw_length hle)

theorem keyChecksum_spec (h : keyChecksum key = .ok (t, len)) :
    checksumLength t = some len ∧ findCksumtype t = some key.keytype ∧ t ≠ 14 ∧ len ≤ 24 := by
  have htypes : checksumType key.keytype = some t ∧ checksumLength t = some len := by
    unfold keyChecksum at h
    split at h
    · cases h
    rename_i t' ht
    split at h
    · cases h
    · rename_i len' hlen
      cases h
      exact ⟨ht, hlen⟩
  obtain ⟨ht, hlen⟩ := htypes
  refine ⟨hlen, ?_⟩
  unfold checksumType at ht
  split_ifs at ht with hk hk hk hk <;> cases ht <;> cases hlen <;> rw [hk] <;> decide

theorem holds_added (cells : List Cell) (ty : UInt32) (h : body.length < 2 ^ 32) :
    Holds (cells ++ [added ty body]) ty body := by
  refine ⟨_, List.mem_append_right _ List.mem_cons_self, rfl, ?_⟩
  simp only [Cell.contents, added, UInt32.toNat_ofNat_of_lt' h]
  exact List.take_left' rfl

theorem blankSignature_layout (h : Row cells) (hlen : len ≤ 24) (hb : blankSignature (layout cells) ty len = .ok pac) :
    ∃ cells', pac = layout cells' ∧ Row cells' ∧ Holds cells' ty (List.replicate (4 + len) 0) ∧
      apart [ty] cells' = apart [ty] cells := by
  unfold blankSignature at hb
  by_cases hty : ty ∈ cells.map Cell.ty
  · obtain ⟨c, hc, rfl⟩ := List.mem_map.mp hty
    have hold : Holds cells c.ty ([] ++ c.contents ++ []) := ⟨c, hc, rfl, by simp⟩
    obtain ⟨b, hloc, hsize, hover⟩ := overwrite_layout h hold
      (List.replicate c.contents.length 0) (List.length_replicate ..)
    rw [hloc] at hb
    dsimp only at hb
    split at hb
    · cases hb
    simp only [List.nil_append, List.append_nil, List.length_nil, Nat.add_zero] at hsize hover hold
    have hlen' : c.contents.length = 4 + len := by omega
    rw [hsize] at hb
    rw [hlen'] at hb hover
    refine ⟨_, (Except.ok.inj hb).symm.trans hover, h.edit hold (by simp [hlen']), ?_, apart_edit (by simp) _ _⟩
    exact holds_edit_self h hold (by simp [hlen'])
  · rw [locate_absent hty] at hb
    obtain ⟨-, rfl, hrow⟩ := addBuffer_layout h hb
    refine ⟨_, rfl, hrow, holds_added _ _ ?_, apart_added (by simp) _ _⟩
    rw [List.length_replicate]
    omega

theorem insertChecksum_layout (h : Row cells) (hi : insertChecksum (layout cells) ty key = .ok (pac, t)) :
    ∃ len cells', keyChecksum key = .ok (t, len) ∧ pac = layout cells' ∧ Row cells' ∧ Holds cells' ty (blank t len) ∧
      apart [ty] cells' = apart [ty] cells := by
  obtain ⟨⟨t', len⟩, hkey, hi⟩ := bind_eq_ok.mp hi
  obtain ⟨blanked, hblank, hi⟩ := bind_eq_ok.mp hi
  obtain ⟨stamped, hstamp, hi⟩ := bind_eq_ok.mp hi
  cases hi
  obtain ⟨cells₁, rfl, hrow, hzeros, hap⟩ := blankSignature_layout h (keyChecksum_spec hkey).2.2.2 hblank
  have hzeros' : Holds cells₁ ty ([] ++ List.replicate 4 0 ++ List.replicate len 0) := by
    rw [List.nil_append, List.replicate_append_replicate]
    exact hzeros
  obtain ⟨b, hloc, -, hover⟩ := overwrite_layout hrow hzeros' (le 4 t'.toNat) (by simp)
  obtain ⟨b', hloc', hstamp⟩ := bind_eq_ok.mp hstamp
  cases hloc.symm.trans hloc'
  have hlen : ([] ++ le 4 t'.toNat ++ List.replicate len (0 : UInt8)).length =
      ([] ++ List.replicate 4 (0 : UInt8) ++ List.replicate len 0).length := by
    simp only [List.length_append, le_length, List.length_replicate]
  refine ⟨len, _, hkey, (Except.ok.inj hstamp).symm.trans hover, hrow.edit hzeros' hlen, ?_,
    (apart_edit (by simp) _ _).trans hap⟩
  exact holds_edit_self hrow hzeros' hlen

section
variable [Checksums]

theorem writeChecksum_layout (h : Row cells) (hold : Holds cells ty (signature t old)) (hw : writeChecksum (layout cells) ty key t data = .ok pac) :
    ∃ sum, computeChecksum key t data = .ok sum ∧ sum.length = old.length ∧
      pac = layout (edit ty (signature t sum) cells) := by
  obtain ⟨sum, hsum, hw⟩ := bind_eq_ok.mp hw
  obtain ⟨b, hloc, hw⟩ := bind_eq_ok.mp hw
  unfold placeSum at hw
  split at hw
  · cases hw
  have hold' : Holds cells ty (le 4 t.toNat ++ old ++ []) := by
    rw [List.append_nil]
    exact hold
  have hsize : b.size.toNat = 4 + old.length := by
    obtain ⟨b', hloc', hsz, -⟩ := overwrite_layout h hold' old rfl
    cases hloc.symm.trans hloc'
    simpa using hsz
  have hlen : sum.length = old.length := by omega
  obtain ⟨b', hloc', -, hover⟩ := overwrite_layout h hold' sum hlen
  cases hloc.symm.trans hloc'
  rw [le_length, List.append_nil] at hover
  exact ⟨sum, hsum, hlen, (Except.ok.inj hw).symm.trans hover⟩

/-- A blank signature filled in: blanking it again gives the row that was signed. -/
theorem fillChecksum_layout (h : Row cells) (hold : Holds cells ty (blank t len))
    (hw : writeChecksum (layout cells) ty key t data = .ok pac) :
    ∃ sum, computeChecksum key t data = .ok sum ∧ sum.length = len ∧
      (signature t sum).length = (blank t len).length ∧ pac = layout (edit ty (signature t sum) cells) ∧
      Row (edit ty (signature t sum) cells) ∧ Holds (edit ty (signature t sum) cells) ty (signature t sum) := by
  obtain ⟨sum, hsum, hlen, rfl⟩ := writeChecksum_layout h hold hw
  rw [List.length_replicate] at hlen
  have hsl : (signature t sum).length = (blank t len).length := by simp [hlen]
  exact ⟨sum, hsum, hlen, hsl, rfl, h.edit hold hsl, holds_edit_self h hold hsl⟩

end

theorem zeroSignature_layout (h : Row cells) (pac : Pac)
    (hold : Holds cells ty (signature t sum)) (htable : pac.buffers = table cells) :
    zeroSignature pac ty (layout cells).data = .ok (layout (edit ty (blank t sum.length) cells)).data := by
  have hold' : Holds cells ty (le 4 t.toNat ++ sum ++ []) := by
    rw [List.append_nil]
    exact hold
  obtain ⟨b, hloc, hsize, hover⟩ := overwrite_layout h hold' (List.replicate sum.length 0) (by simp)
  have hfind : pac.buffers.find? (·.ty = ty) = some b := by
    rw [htable, ← List.head?_filter]
    unfold locate at hloc
    split at hloc
    · cases hloc
    · rename_i hf
      cases hloc
      rw [show table cells = (layout cells).buffers from rfl, hf]
      rfl
    · cases hloc
  simp only [List.append_nil, List.length_append, le_length] at hsize hover
  unfold zeroSignature
  rw [hfind]
  dsimp only
  rw [if_neg (by omega), hsize, Nat.add_sub_cancel_left]
  exact congrArg (fun p : Pac => Except.ok p.data) hover

section
variable [Checksums]

theorem verifyChecksum_layout (h : Row cells)
    (hkey : keyChecksum key = .ok (t, len)) (hold : Holds cells ty (signature t sum))
    (hlen : sum.length = len) (hsum : computeChecksum key t data = .ok sum) :
    verifyChecksum (layout cells) ty key data = .ok () := by
  obtain ⟨hcklen, hfind, hnot, -⟩ := keyChecksum_spec hkey
  have hty : le32 (signature t sum) 0 = t := le32_of_eq [] sum rfl rfl
  have hslice : slice (signature t sum) 4 len = sum :=
    slice_of_eq (le 4 t.toNat) [] (by rw [List.append_nil]; rfl) (le_length ..) hlen
  have hcheck : Checksums.checksum key.keytype key.keyBytes keyusageAppDataCksum data = .ok sum := by
    unfold computeChecksum at hsum
    rw [hfind] at hsum
    dsimp only at hsum
    split at hsum
    · cases hsum
    · rename_i s hs
      cases hsum
      exact hs
  unfold verifyChecksum
  rw [getBuffer_layout h hold]
  show checkSignature ty key data (signature t sum) = _
  unfold checkSignature signatureLength
  rw [hty, signature_length, if_neg (by omega), if_neg (fun hand => hnot hand.2), hcklen]
  show (if 4 + sum.length - 4 < len then _ else _) = _
  rw [if_neg (by omega), hslice]
  unfold compareChecksum
  rw [hfind]
  dsimp only
  rw [if_neg (by simp), if_pos hcheck]

end

/-! ## Signing and verifying -/

theorem edit_unsign (h : Row cells) (hne : ty ≠ ty') {b b' s s' : Bytes} (hb : Holds cells ty b)
    (hb' : Holds cells ty' b') (hs : s.length = b.length) (hs' : s'.length = b'.length) :
    edit ty' b' (edit ty b (edit ty' s' (edit ty s cells))) = cells := by
  rw [edit_comm hne b s', edit_edit ty hs, edit_self h hb, edit_edit ty' hs', edit_self h hb']

section
variable [Checksums]

def FullSigned (key : EncryptionKey) (cells : List Cell) : Prop :=
  ∃ t len sum, keyChecksum key = .ok (t, len) ∧ Holds cells fullChecksum (signature t sum) ∧ sum.length = len ∧
    computeChecksum key t (layout (edit fullChecksum (blank t len) cells)).data = .ok sum

def fullTypes (isService : Bool) : List UInt32 := if isService then [fullChecksum] else []

theorem full_layout (h : Row cells) (hkey : keyChecksum key = .ok (t, len)) {inserted : Pac}
    (hi : insertFull isService (layout cells) key = .ok inserted)
    (hw : writeFull isService (syncHeader inserted) key t = .ok pac) :
    ∃ cells', pac = layout cells' ∧ Row cells' ∧ apart (fullTypes isService) cells' = apart (fullTypes isService) cells ∧
      (isService = true → FullSigned key cells') := by
  unfold writeFull at hw
  cases isService with
  | false =>
    cases hi
    cases hw
    exact ⟨cells, syncHeader_layout cells, h, rfl, fun hf => nomatch hf⟩
  | true =>
    obtain ⟨⟨p, t'⟩, hins, hi⟩ := bind_eq_ok.mp hi
    cases hi
    obtain ⟨len', cells₁, hkey', rfl, hrow, hblank, hap⟩ := insertChecksum_layout h hins
    cases hkey.symm.trans hkey'
    rw [if_pos rfl, syncHeader_layout] at hw
    obtain ⟨sum, hsum, hlen, hsl, rfl, hrow', hold⟩ := fillChecksum_layout hrow hblank hw
    refine ⟨_, rfl, hrow', (apart_edit (by simp [fullTypes]) _ _).trans hap, fun _ => ⟨t, len, sum, hkey, hold, hlen, ?_⟩⟩
    rw [edit_edit _ hsl, edit_self hrow hblank]
    exact hsum

/-- The server's signature over a row, then the KDC's over the server's: both verify, and so does
a full signature the row has. -/
theorem sealed_verifies (h : Row cells) {ts tp : UInt32}
    {ls lp : Nat} (hks : keyChecksum serverKey = .ok (ts, ls)) (hkp : keyChecksum privsvrKey = .ok (tp, lp))
    (hbs : Holds cells serverChecksum (blank ts ls)) (hbp : Holds cells privsvrChecksum (blank tp lp)) (hseal : (do
      let pac ← writeChecksum (layout cells) serverChecksum serverKey ts (layout cells).data
      let sc ← getBuffer pac serverChecksum
      writeChecksum pac privsvrChecksum privsvrKey tp (sc.drop 4)) = .ok pac) :
    ∃ cells', pac = layout cells' ∧ Row cells' ∧
      apart [serverChecksum, privsvrChecksum] cells' = apart [serverChecksum, privsvrChecksum] cells ∧
      ∀ expectFull : Bool, (expectFull = true → FullSigned privsvrKey cells) →
        verifyChecksums pac expectFull (some serverKey) (some privsvrKey) = .ok () := by
  obtain ⟨pac₁, hw₁, hseal⟩ := bind_eq_ok.mp hseal
  obtain ⟨sc, hsc, hw₂⟩ := bind_eq_ok.mp hseal
  have hne : serverChecksum ≠ privsvrChecksum := by decide
  obtain ⟨ss, hss, hlss, hsl, rfl, hrow₁, hserver₁⟩ := fillChecksum_layout h hbs hw₁
  have hbp₁ := holds_edit_other hne (signature ts ss) hbp
  cases (getBuffer_layout hrow₁ hserver₁).symm.trans hsc
  have hpart : (signature ts ss).drop 4 = ss := List.drop_left' (le_length ..)
  obtain ⟨sp, hsp, hlsp, hpl, rfl, hrow₂, hprivsvr₂⟩ := fillChecksum_layout hrow₁ hbp₁ hw₂
  have hserver₂ := holds_edit_other hne.symm (signature tp sp) hserver₁
  refine ⟨_, rfl, hrow₂, ?_, ?_⟩
  · rw [apart_edit (by simp), apart_edit (by simp)]
  intro expectFull hfull
  have htable := (table_edit hrow₁ hbp₁ hpl).trans (table_edit h hbs hsl)
  have hzero₁ := zeroSignature_layout hrow₂
    (layout (edit privsvrChecksum (signature tp sp) (edit serverChecksum (signature ts ss) cells))) hserver₂ rfl
  have hbl : (blank ts ss.length).length = (signature ts ss).length := by simp
  have hprivsvr₃ := holds_edit_other hne (blank ts ss.length) hprivsvr₂
  have hzero₂ := zeroSignature_layout (hrow₂.edit hserver₂ hbl)
    (layout (edit privsvrChecksum (signature tp sp) (edit serverChecksum (signature ts ss) cells))) hprivsvr₃
    (table_edit hrow₂ hserver₂ hbl).symm
  rw [hlss, hlsp, edit_unsign h hne hbs hbp hsl hpl] at hzero₂
  rw [hlss] at hzero₁
  generalize hfinal : edit privsvrChecksum (signature tp sp) (edit serverChecksum (signature ts ss) cells) = final
    at hrow₂ hserver₂ hprivsvr₂ htable hzero₁ hzero₂
  have hverify₁ := verifyChecksum_layout hrow₂ hks hserver₂ hlss hss
  have hverify₂ : verifyFull (layout final) expectFull (some privsvrKey) (layout cells).data = .ok () := by
    cases expectFull with
    | false => rfl
    | true =>
      obtain ⟨t, len, sum, hkey, hold, hlen, hsum⟩ := hfull rfl
      have hzero := zeroSignature_layout h (layout final) hold htable
      have hold' : Holds final fullChecksum (signature t sum) := by
        rw [← hfinal]
        exact holds_edit_other (by decide) _ (holds_edit_other (by decide) _ hold)
      unfold verifyFull
      rw [hzero, hlen]
      exact verifyChecksum_layout hrow₂ hkey hold' hlen hsum
  have hverify₃ : verifyPrivsvr (layout final) (some privsvrKey) = .ok () := by
    have hsigned : signedPart (signature ts ss) = .ok ss := by
      unfold signedPart
      rw [if_neg (by simp), hpart]
    apply bind_eq_ok.mpr
    refine ⟨_, getBuffer_layout hrow₂ hserver₂, bind_eq_ok.mpr ⟨ss, hsigned, ?_⟩⟩
    exact verifyChecksum_layout hrow₂ hkp hprivsvr₂ hlsp hsp
  exact bind_eq_ok.mpr ⟨_, hzero₁, bind_eq_ok.mpr ⟨_, hzero₂, bind_eq_ok.mpr ⟨(), hverify₁,
    bind_eq_ok.mpr ⟨(), hverify₂, hverify₃⟩⟩⟩⟩

end

/-! ## Client info -/

theorem unitsOf_unitBytes (us : List UInt16) : unitsOf (us.flatMap unitBytes) = us := by
  induction us with
  | nil => rfl
  | cons u us ih =>
    have hu := ofLe_le 2 u.toNat (by have := u.toNat_lt; omega)
    show UInt16.ofNat (ofLe [_, _]) :: unitsOf (us.flatMap unitBytes) = _
    rw [ih]
    exact congrArg (· :: us) ((congrArg UInt16.ofNat hu).trans UInt16.ofNat_toNat)

theorem unitBytes_even (us : List UInt16) : (us.flatMap unitBytes).length % 2 = 0 := by
  induction us with
  | nil => rfl
  | cons u us ih =>
    rw [List.flatMap_cons, List.length_append, unitBytes, le_length]
    omega

structure Encodable (authtime : Int) (name : List Char) : Prop where
  nonneg : 0 ≤ authtime
  lt : authtime < 2 ^ 32
  short : ((Utf16.encode name).flatMap unitBytes).length < 2 ^ 16

theorem decodeClientInfo_body {name : List Char} (h : Encodable authtime name) :
    decodeClientInfo (clientInfoBody authtime name) = .ok ⟨authtime, name⟩ := by
  obtain ⟨hnonneg, hlt, hshort⟩ := h
  have heven := unitBytes_even (Utf16.encode name)
  have hdecode : Utf16.decode (unitsOf ((Utf16.encode name).flatMap unitBytes)) = some name := by
    rw [unitsOf_unitBytes, Utf16.decode_encode]
  unfold decodeClientInfo clientInfoBody
  dsimp only
  generalize (Utf16.encode name).flatMap unitBytes = utf16 at hshort heven hdecode
  generalize hnt : ((authtime % 2 ^ 32).toNat + ntTimeEpoch) * 10000000 = nt
  have hepoch : ntTimeEpoch = 11644473600 := rfl
  have hntlt : nt < 256 ^ 8 := by omega
  have hsince : sinceEpoch nt = authtime.toNat := by
    unfold sinceEpoch
    omega
  have htime : slice (le 8 nt ++ le 2 utf16.length ++ utf16) 0 8 = le 8 nt :=
    slice_of_eq [] (le 2 utf16.length ++ utf16) (by simp) rfl (le_length ..)
  have hcount : slice (le 8 nt ++ le 2 utf16.length ++ utf16) 8 2 = le 2 utf16.length :=
    slice_of_eq (le 8 nt) utf16 rfl (le_length ..) (le_length ..)
  have hname : slice (le 8 nt ++ le 2 utf16.length ++ utf16) 10 utf16.length = utf16 :=
    slice_of_eq (le 8 nt ++ le 2 utf16.length) [] (by simp) (by simp) rfl
  have hlen : (le 8 nt ++ le 2 utf16.length ++ utf16).length = 10 + utf16.length := by
    simp only [List.length_append, le_length]
  rw [htime, hcount, ofLe_le 8 nt hntlt, ofLe_le 2 _ (by omega), hsince, hlen, hname, hdecode,
    if_neg (by omega), if_neg (by omega), if_neg (by omega)]
  rw [Int.toNat_of_nonneg hnonneg]

def special : List Char := ['\\', '/', '@', '\n', '\t', '\x08', '\x00']

theorem escape_of_plain {c : Char} (h : c ∉ special) : escape c = [c] := by
  unfold escape
  split <;> first | rfl | exact absurd (by decide) h

theorem flatMap_escape {s : List Char} (h : ∀ c ∈ s, c ∉ special) : s.flatMap escape = s := by
  induction s with
  | nil => rfl
  | cons c s ih =>
    obtain ⟨hc, hs⟩ := List.forall_mem_cons.mp h
    rw [List.flatMap_cons, escape_of_plain hc, ih hs]
    rfl

section
variable [Alphabet]

def Displayed (name : PrincipalName) (realm : Str) (withRealm : Bool) : Prop :=
  withRealm = true ∧ name.nameType = ntEnterprise ∨
    (∀ s ∈ name.nameString, ∀ c ∈ lossyChars s.bytes, c ∉ special) ∧
      (withRealm = true → ∀ c ∈ Utf8.chars realm.bytes, c ∉ special)

variable {withRealm : Bool} {cells : List Cell} {authtime : Int} {client : Option (PrincipalName × Str)}
  {name : PrincipalName}

theorem writtenName_displayed (h : Displayed name realm withRealm) :
    writtenName name realm withRealm = unparseName name realm true withRealm := by
  unfold writtenName
  rcases h with ⟨hrealm, htype⟩ | ⟨hcomps, hrealm⟩
  · simp [hrealm, htype]
  generalize (withRealm && decide (name.nameType = ntEnterprise)) = display
  cases display with
  | true => rfl
  | false =>
    have hmap : name.nameString.map (fun s => escapeUnless false (lossyChars s.bytes)) =
        name.nameString.map (fun s => escapeUnless true (lossyChars s.bytes)) := by
      apply List.map_congr_left
      intro s hs
      exact flatMap_escape (hcomps s hs)
    unfold unparseName
    rw [hmap]
    cases withRealm with
    | false => rfl
    | true => simp [escapeUnless, flatMap_escape (hrealm rfl)]

theorem validateClient_layout (h : Row cells)
    (henc : Encodable authtime (writtenName name realm withRealm)) (hname : Displayed name realm withRealm)
    (hold : Holds cells clientInfoType (clientInfoBody authtime (writtenName name realm withRealm))) :
    validateClient (layout cells) authtime name realm withRealm = .ok () := by
  have hinfo := bind_eq_ok.mpr ⟨_, getBuffer_layout h hold, decodeClientInfo_body henc⟩
  refine bind_eq_ok.mpr ⟨_, hinfo, ?_⟩
  unfold matchClient
  rw [if_neg (by simp [writtenName_displayed hname])]

theorem validateClient_congr (h : Row cells) (h' : Row cells')
    (hold : Holds cells clientInfoType bs) (hold' : Holds cells' clientInfoType bs) (authtime : Int)
    (name : PrincipalName) (realm : Str) (withRealm : Bool) :
    validateClient (layout cells') authtime name realm withRealm = validateClient (layout cells) authtime name realm withRealm := by
  unfold validateClient clientInfo
  rw [getBuffer_layout h hold, getBuffer_layout h' hold']

structure ClientInserted (cells cells' : List Cell) (authtime : Int) (client : Option (PrincipalName × Str))
    (withRealm : Bool) : Prop where
  row : Row cells'
  apart_eq : apart [clientInfoType] cells' = apart [clientInfoType] cells
  keeps : ∀ bs, Holds cells clientInfoType bs → Holds cells' clientInfoType bs
  checked : ∀ c, client = some c → clientInfoType ∈ cells.map Cell.ty →
    cells' = cells ∧ validateClient (layout cells) authtime c.1 c.2 withRealm = .ok ()
  written : ∀ c, client = some c → clientInfoType ∉ cells.map Cell.ty →
    cells' = cells ++ [added clientInfoType (clientInfoBody authtime (writtenName c.1 c.2 withRealm))]

theorem insertClient_layout (h : Row cells) (hi : insertClient (layout cells) authtime client withRealm = .ok pac) :
    ∃ cells', pac = layout cells' ∧ ClientInserted cells cells' authtime client withRealm := by
  cases client with
  | none =>
    cases hi
    exact ⟨cells, rfl, h, rfl, fun _ hb => hb, (fun _ hc => nomatch hc), fun _ hc => nomatch hc⟩
  | some c =>
    unfold insertClient insertClientInfo at hi
    dsimp only at hi
    split at hi
    · rename_i hthere
      obtain ⟨⟨⟩, hvalid, hi⟩ := bind_eq_ok.mp hi
      cases hi
      refine ⟨cells, rfl, h, rfl, fun _ hb => hb, ?_, ?_⟩
      · intro c' hc _
        cases hc
        exact ⟨rfl, hvalid⟩
      · intro _ _ habsent
        exact absurd ((locate_isOk h.types _).mp hthere) habsent
    · obtain ⟨habsent, rfl, hrow⟩ := addBuffer_layout h hi
      refine ⟨_, rfl, hrow, apart_added (by simp) _ _, ?_, ?_, ?_⟩
      · intro bs hb
        obtain ⟨d, hd, hty, hbs⟩ := hb
        exact ⟨d, List.mem_append_left _ hd, hty, hbs⟩
      · intro _ _ hthere
        exact absurd hthere habsent
      · intro c' hc _
        cases hc
        rfl

variable [Checksums]

def signTypes (isService : Bool) : List UInt32 := serverChecksum :: privsvrChecksum :: fullTypes isService

theorem signPac_layout (h : Row cells)
    (hsign : signPac (layout cells) authtime client serverKey privsvrKey withRealm isService = .ok pac) :
    ∃ cells₁ cells', ClientInserted cells cells₁ authtime client withRealm ∧
      pac = layout cells' ∧ Row cells' ∧ cells' ≠ [] ∧
      apart (signTypes isService) cells' = apart (signTypes isService) cells₁ ∧
      ∀ expectFull : Bool, (expectFull = true → isService = true) →
        verifyChecksums pac expectFull (some serverKey) (some privsvrKey) = .ok () := by
  obtain ⟨pac₁, hclient, hsign⟩ := bind_eq_ok.mp hsign
  obtain ⟨⟨pac₂, ts⟩, hserver, hsign⟩ := bind_eq_ok.mp hsign
  obtain ⟨⟨pac₃, tp⟩, hprivsvr, hsign⟩ := bind_eq_ok.mp hsign
  obtain ⟨pac₄, hfull, hsign⟩ := bind_eq_ok.mp hsign
  obtain ⟨pac₅, hwrite, hseal⟩ := bind_eq_ok.mp hsign
  obtain ⟨cells₁, rfl, hinserted⟩ := insertClient_layout h hclient
  obtain ⟨ls, cells₂, hks, rfl, hrow₂, hbs₂, hap₂⟩ := insertChecksum_layout hinserted.row hserver
  obtain ⟨lp, cells₃, hkp, rfl, hrow₃, hbp₃, hap₃⟩ := insertChecksum_layout hrow₂ hprivsvr
  obtain ⟨cells₅, rfl, hrow₅, hap₅, hsigned⟩ := full_layout hrow₃ hkp hfull hwrite
  have hbs₅ := (hbs₂.of_apart hap₃ (by decide)).of_apart hap₅ (by cases isService <;> decide)
  have hbp₅ := hbp₃.of_apart hap₅ (by cases isService <;> decide)
  obtain ⟨cells', rfl, hrow', hap', hverify⟩ := sealed_verifies hrow₅ hks hkp hbs₅ hbp₅ hseal
  refine ⟨cells₁, cells', hinserted, rfl, hrow', ?_, ?_, ?_⟩
  · rintro rfl
    obtain ⟨_, hzero, -⟩ := bind_eq_ok.mp (hverify false (by simp))
    cases hzero
  · calc apart (signTypes isService) cells'
      _ = apart (signTypes isService) cells₅ := apart_mono (by simp [signTypes]) hap'
      _ = apart (signTypes isService) cells₃ :=
        apart_mono (fun _ hty => List.mem_cons_of_mem _ (List.mem_cons_of_mem _ hty)) hap₅
      _ = apart (signTypes isService) cells₂ := apart_mono (by simp [signTypes]) hap₃
      _ = apart (signTypes isService) cells₁ := apart_mono (by simp [signTypes]) hap₂
  · intro expectFull hexpect
    exact hverify expectFull fun hf => hsigned (hexpect hf)

end

/-! ## Tickets -/

section
variable {ρ : Type} (der : Der ρ)

theorem findPac_first {el : AuthData} (hel : ifRelevant der [pacElement data] = .ok el)
    (els : List AuthData) : findPac der (el :: els) = .ok (some (0, [pacElement data], 0)) := by
  unfold ifRelevant at hel
  split at hel
  · rename_i bs hbs
    cases hel
    have hdecode : decodeIfRelevant der ⟨adIfRelevant, bs⟩ = .ok [pacElement data] := by
      unfold decodeIfRelevant
      rw [der.decode_encode _ _ hbs]
    unfold findPac
    rw [if_neg (by simp), hdecode]
    rfl
  · cases hel

variable [Checksums]

def TicketSigned (key : EncryptionKey) (tkt : EncTicketPart ρ) (cells : List Cell) : Prop :=
  ∃ bs t len sum, encodeEncTkt der tkt = .ok bs ∧ keyChecksum key = .ok (t, len) ∧
    Holds cells ticketChecksum (signature t sum) ∧ sum.length = len ∧ computeChecksum key t bs = .ok sum

def ticketOnly (isService : Bool) : List UInt32 := if isService then [ticketChecksum] else []

variable {tkt : EncTicketPart ρ}

theorem signTicketChecksum_layout (h : Row cells) (hs : signTicketChecksum der isService (layout cells) key tkt = .ok pac) :
    ∃ cells', pac = layout cells' ∧ Row cells' ∧ apart (ticketOnly isService) cells' = apart (ticketOnly isService) cells ∧
      (isService = true → TicketSigned der key tkt cells') := by
  cases isService with
  | false =>
    cases hs
    exact ⟨cells, rfl, h, rfl, fun hf => nomatch hf⟩
  | true =>
    obtain ⟨bs, hbs, hs⟩ := bind_eq_ok.mp hs
    obtain ⟨⟨p, t⟩, hins, hs⟩ := bind_eq_ok.mp hs
    obtain ⟨len, cells₁, hkey, rfl, hrow, hblank, hap⟩ := insertChecksum_layout h hins
    obtain ⟨sum, hsum, hlen, -, rfl, hrow', hold⟩ := fillChecksum_layout hrow hblank hs
    exact ⟨_, rfl, hrow', (apart_edit (by simp [ticketOnly]) _ _).trans hap,
      fun _ => ⟨bs, t, len, sum, hbs, hkey, hold, hlen, hsum⟩⟩

variable [Alphabet]

def ticketTypes (isService : Bool) : List UInt32 := clientInfoType :: (signTypes isService ++ ticketOnly isService)

theorem kdcSignTicket_layout (h : Row cells) {tkt' : EncTicketPart ρ}
    {server : PrincipalName} {client : Option (PrincipalName × Str)}
    (hs : kdcSignTicket der tkt (layout cells) server client serverKey privsvrKey withRealm = .ok (tkt', pac)) :
    ∃ cells', pac = layout cells' ∧ Row cells' ∧
      apart (ticketTypes (shouldHaveTicketSignature server)) cells' =
        apart (ticketTypes (shouldHaveTicketSignature server)) cells ∧
      (∀ bs, Holds cells clientInfoType bs → Holds cells' clientInfoType bs) ∧
      kdcVerifyTicket der tkt' server serverKey (some privsvrKey) = .ok (some pac) := by
  obtain ⟨dummy, hdummy, hs⟩ := bind_eq_ok.mp hs
  obtain ⟨pac₁, hticket, hs⟩ := bind_eq_ok.mp hs
  obtain ⟨pac₂, hsign, hs⟩ := bind_eq_ok.mp hs
  obtain ⟨real, hreal, hs⟩ := bind_eq_ok.mp hs
  cases hs
  generalize hservice : shouldHaveTicketSignature server = isService at hticket hsign ⊢
  obtain ⟨cells₁, rfl, hrow₁, hap₁, htkt⟩ := signTicketChecksum_layout der h hticket
  obtain ⟨cells₂, cells', hclient, rfl, hrow', hne, hap', hverify⟩ := signPac_layout hrow₁ hsign
  have hsub : ∀ ty ∈ signTypes isService, ty ∈ ticketTypes isService := fun _ hty =>
    List.mem_cons_of_mem _ (List.mem_append_left _ hty)
  have hsub' : ∀ ty ∈ ticketOnly isService, ty ∈ ticketTypes isService := fun _ hty =>
    List.mem_cons_of_mem _ (List.mem_append_right _ hty)
  refine ⟨cells', rfl, hrow', ?_, ?_, ?_⟩
  · calc apart (ticketTypes isService) cells'
      _ = apart (ticketTypes isService) cells₂ := apart_mono hsub hap'
      _ = apart (ticketTypes isService) cells₁ := apart_mono (by simp [ticketTypes]) hclient.apart_eq
      _ = apart (ticketTypes isService) cells := apart_mono hsub' hap₁
  · intro bs hbs
    have hbs₁ := hbs.of_apart hap₁ (by cases isService <;> decide)
    exact (hclient.keeps bs hbs₁).of_apart hap' (by cases isService <;> decide)
  · -- re-encoding with the dummy in place of the PAC gives the ticket that was signed
    have hchecked : verifyTicketChecksum der isService (layout cells') (some privsvrKey) (withFirst tkt real)
        (real :: tkt.authorizationData.getD []) [pacElement (layout cells').data] 0 0 = .ok () := by
      cases isService with
      | false => rfl
      | true =>
        obtain ⟨bs, t, len, sum, hbs, hkey, hold, hlen, hsum⟩ := htkt rfl
        have hold₂ := hold.of_apart hclient.apart_eq (by decide)
        have hold' := hold₂.of_apart hap' (by decide)
        refine bind_eq_ok.mpr ⟨dummy, hdummy, bind_eq_ok.mpr ⟨bs, hbs, ?_⟩⟩
        exact verifyChecksum_layout hrow' hkey hold' hlen hsum
    have hfound := findPac_first der hreal (tkt.authorizationData.getD [])
    refine bind_eq_ok.mpr ⟨_, hfound, bind_eq_ok.mpr ⟨_, parse_layout hrow' hne, ?_⟩⟩
    rw [hservice]
    exact bind_eq_ok.mpr ⟨(), hchecked, bind_eq_ok.mpr ⟨(), hverify isService id, rfl⟩⟩

end

/-! ## What a signed PAC holds -/

theorem contents_infos (hok : ∀ c ∈ cells, c.Ok) (pre rest : List Cell) (h : cells = pre ++ rest) :
    (infos (headerLength cells + (pre.flatMap Cell.raw).length) rest).map
        (fun b => (⟨b.ty, contents (layout cells) b⟩ : PacBuffer)) =
      rest.map fun c => ⟨c.ty, c.contents⟩ := by
  induction rest generalizing pre with
  | nil => rfl
  | cons c rest ih =>
    have hnext := ih (pre ++ [c]) (by rw [h, List.append_assoc]; rfl)
    rw [List.flatMap_append, List.flatMap_singleton, List.length_append, ← Nat.add_assoc] at hnext
    have hdrop : (layout cells).data.drop (headerLength cells + (pre.flatMap Cell.raw).length) =
        c.raw ++ rest.flatMap Cell.raw := by
      have hdata : (layout cells).data =
          header (table cells) ++ pre.flatMap Cell.raw ++ (c.raw ++ rest.flatMap Cell.raw) := by
        simp only [layout, h, List.flatMap_append, List.flatMap_cons, List.append_assoc]
      rw [hdata, ← layout_header_length, ← List.length_append, List.drop_left]
    have hcontents : contents (layout cells) ⟨c.ty, c.size, headerLength cells + (pre.flatMap Cell.raw).length⟩ =
        c.contents := by
      unfold contents slice
      rw [hdrop, List.take_append_of_le_length (hok c (by simp [h])).size_le, Cell.contents]
    rw [infos, List.map_cons, List.map_cons, hnext, hcontents]

theorem pacBuffers_layout (h : Row cells) : pacBuffers (layout cells) = cells.map fun c => ⟨c.ty, c.contents⟩ :=
  contents_infos h.ok [] cells rfl

def otherBuffers (tys : List UInt32) (pac : Pac) : List PacBuffer := (pacBuffers pac).filter (·.ty ∉ tys)

theorem otherBuffers_layout (h : Row cells) (tys : List UInt32) :
    otherBuffers tys (layout cells) = (apart tys cells).map fun c => ⟨c.ty, c.contents⟩ := by
  unfold otherBuffers apart
  rw [pacBuffers_layout h, List.filter_map]
  rfl

theorem holds_of_getBuffer (h : Row cells) (hget : getBuffer (layout cells) ty = .ok bs) : Holds cells ty bs := by
  by_cases hty : ty ∈ cells.map Cell.ty
  · obtain ⟨c, hc, rfl⟩ := List.mem_map.mp hty
    have hold : Holds cells c.ty c.contents := ⟨c, hc, rfl, rfl⟩
    rw [getBuffer_layout h hold] at hget
    rw [← Except.ok.inj hget]
    exact hold
  · unfold getBuffer at hget
    rw [locate_absent hty] at hget
    cases hget

inductive Built : Pac → Prop
  | new : Built new
  | add {pac pac' : Pac} {ty : UInt32} {body : Bytes} (h : Built pac) (hadd : addBuffer pac ty body = .ok pac') :
    Built pac'

theorem Built.layout (h : Built pac) : ∃ cells, pac = layout cells ∧ Row cells := by
  induction h with
  | new => exact ⟨[], by decide, by simp, by simp, by decide, by decide⟩
  | add _ hadd ih =>
    obtain ⟨cells, rfl, hrow⟩ := ih
    obtain ⟨-, rfl, hrow'⟩ := addBuffer_layout hrow hadd
    exact ⟨_, rfl, hrow'⟩

section
variable [Alphabet] [Checksums]

theorem signed_verifies (h : Row cells) {name : PrincipalName} {signed : Pac}
    (hnew : clientInfoType ∉ cells.map Cell.ty →
      Displayed name realm withRealm ∧ Encodable authtime (writtenName name realm withRealm))
    (hsign : signPac (layout cells) authtime (some (name, realm)) serverKey privsvrKey withRealm isService = .ok signed) :
    parse signed.data = .ok signed ∧
      verifyExt signed authtime (some (name, realm)) withRealm (some serverKey) (some privsvrKey) = .ok () := by
  obtain ⟨cells₁, cells', hclient, rfl, hrow', hne, hap, hverify⟩ := signPac_layout h hsign
  have hvalid : validateClient (layout cells') authtime name realm withRealm = .ok () := by
    by_cases hthere : clientInfoType ∈ cells.map Cell.ty
    · obtain ⟨rfl, hchecked⟩ := hclient.checked _ rfl hthere
      obtain ⟨c, hc, hty⟩ := List.mem_map.mp hthere
      have hold : Holds cells₁ clientInfoType c.contents := ⟨c, hc, hty, rfl⟩
      have hold' := hold.of_apart hap (by cases isService <;> decide)
      rw [validateClient_congr h hrow' hold hold']
      exact hchecked
    · obtain ⟨hname, henc⟩ := hnew hthere
      have hcells := hclient.written _ rfl hthere
      have hold : Holds cells₁ clientInfoType (clientInfoBody authtime (writtenName name realm withRealm)) := by
        rw [hcells]
        have hshort := henc.short
        refine holds_added _ _ ?_
        simp only [clientInfoBody, List.length_append, le_length]
        omega
      exact validateClient_layout hrow' henc hname (hold.of_apart hap (by cases isService <;> decide))
  refine ⟨parse_layout hrow' hne, bind_eq_ok.mpr ⟨(), ?_, hvalid⟩⟩
  exact hverify false fun hf => nomatch hf

/-- A PAC signed for a name that is displayed as it is written, at a time and with a name its
client info can hold, parses and verifies; and one signed into a ticket verifies there, with
every buffer signing does not write as it was. -/
theorem signed_pac_accepted {ρ : Type} (der : Der ρ) {pac : Pac} (hbuilt : Built pac) (name : PrincipalName)
    (realm : Str) (withRealm : Bool) (serverKey privsvrKey : EncryptionKey) :
    (∀ (authtime : Int) (isService : Bool) (signed : Pac),
      (getBuffer pac clientInfoType = .error .noEntry →
        Displayed name realm withRealm ∧ Encodable authtime (writtenName name realm withRealm)) →
      signPac pac authtime (some (name, realm)) serverKey privsvrKey withRealm isService = .ok signed →
      parse signed.data = .ok signed ∧
        verifyExt signed authtime (some (name, realm)) withRealm (some serverKey) (some privsvrKey) = .ok ()) ∧
    (∀ (tkt tkt' : EncTicketPart ρ) (server : PrincipalName) (client : Option (PrincipalName × Str)) (signed : Pac),
      kdcSignTicket der tkt pac server client serverKey privsvrKey withRealm = .ok (tkt', signed) →
      kdcVerifyTicket der tkt' server serverKey (some privsvrKey) = .ok (some signed) ∧
        otherBuffers (ticketTypes (shouldHaveTicketSignature server)) signed =
          otherBuffers (ticketTypes (shouldHaveTicketSignature server)) pac ∧
        ∀ ci, getBuffer pac clientInfoType = .ok ci → getBuffer signed clientInfoType = .ok ci) := by
  obtain ⟨cells, rfl, hrow⟩ := hbuilt.layout
  refine ⟨?_, ?_⟩
  · intro authtime isService signed hnew hsign
    refine signed_verifies hrow (fun habsent => hnew ?_) hsign
    unfold getBuffer
    rw [locate_absent habsent]
    rfl
  · intro tkt tkt' server client signed hs
    obtain ⟨cells', rfl, hrow', hap, hkeep, hverify⟩ := kdcSignTicket_layout der hrow hs
    refine ⟨hverify, ?_, ?_⟩
    · rw [otherBuffers_layout hrow', otherBuffers_layout hrow, hap]
    · intro ci hci
      exact getBuffer_layout hrow' (hkeep ci (holds_of_getBuffer hrow hci))

end

/-! ## Runs -/

attribute [local instance] Alphabet.ascii

@[reducible] local instance pacChecksums : Checksums :=
  ⟨fun etype _ _ data =>
    .ok (List.replicate (if etype = 19 then 16 else if etype = 20 then 24 else 12) (data.foldl (· + ·) 1))⟩

def onePac : Der Unit where
  encodeList
    | [el] => if el.adType = adWin2kPac then .ok el.adData else .error "not a PAC"
    | _ => .error "not one element"
  decodeList bs := .ok [pacElement bs]
  encodeTicket tkt := .ok ((tkt.authorizationData.getD []).flatMap (·.adData))
  decode_encode := by
    intro l bs h
    match l, h with
    | [⟨ty, data⟩], h =>
      dsimp only at h
      split at h
      · rename_i hty
        cases h
        rw [hty]
        rfl
      · cases h

def pacKey (byte : UInt8) : EncryptionKey := ⟨18, List.replicate 32 byte⟩

def pacClient (bytes : Bytes) (h : Alphabet.permits bytes = true) : PrincipalName := ⟨1, [⟨bytes, h⟩]⟩

def pacRealm : Str := ⟨[88], by decide⟩

def pacTicket : EncTicketPart Unit := ⟨(), 86400, none⟩

def signedPlain : Except PacError Pac :=
  signPac new 86400 (some (pacClient [120] rfl, pacRealm)) (pacKey 1) (pacKey 2) false true

def ticketPlain : Except PacError (EncTicketPart Unit × Pac) :=
  kdcSignTicket onePac pacTicket new (pacClient [122] rfl) (some (pacClient [120] rfl, pacRealm)) (pacKey 1) (pacKey 2) false

theorem plain_client_accepted : (∃ signed, signedPlain = .ok signed ∧ parse signed.data = .ok signed ∧
      verifyExt signed 86400 (some (pacClient [120] rfl, pacRealm)) false (some (pacKey 1)) (some (pacKey 2)) = .ok ()) ∧
    ∃ tkt' signed, ticketPlain = .ok (tkt', signed) ∧
      kdcVerifyTicket onePac tkt' (pacClient [122] rfl) (pacKey 1) (some (pacKey 2)) = .ok (some signed) := by
  have haccepted := signed_pac_accepted onePac .new (pacClient [120] rfl) pacRealm false (pacKey 1) (pacKey 2)
  have hplain : ∀ s ∈ (pacClient [120] rfl).nameString, ∀ c ∈ lossyChars s.bytes, c ∉ special := by
    intro s hs c hc
    obtain rfl := List.mem_singleton.mp hs
    have hchars : lossyChars [120] = ['x'] := by decide +kernel
    have hc' : c ∈ lossyChars [120] := hc
    rw [hchars, List.mem_singleton] at hc'
    rw [hc']
    decide
  have hname : Displayed (pacClient [120] rfl) pacRealm false := .inr ⟨hplain, fun hf => nomatch hf⟩
  have henc : Encodable 86400 (writtenName (pacClient [120] rfl) pacRealm false) :=
    ⟨by decide, by decide, by decide +kernel⟩
  obtain ⟨signed, hs⟩ := Wire.exists_of_isOk (show signedPlain.isOk = true by decide +kernel)
  obtain ⟨⟨tkt', signed'⟩, ht⟩ := Wire.exists_of_isOk (show ticketPlain.isOk = true by decide +kernel)
  exact ⟨⟨signed, hs, haccepted.1 86400 true signed (fun _ => ⟨hname, henc⟩) hs⟩,
    tkt', signed', ht, (haccepted.2 pacTicket tkt' _ _ signed' ht).1⟩

/-- An `@` is written escaped and expected plain. -/
theorem escaped_client_rejected :
    ((signPac new 86400 (some (pacClient [120, 64] rfl, pacRealm)) (pacKey 1) (pacKey 2) false false).bind fun signed =>
      (parse signed.data).bind fun parsed =>
        verifyExt parsed 86400 (some (pacClient [120, 64] rfl, pacRealm)) false (some (pacKey 1)) (some (pacKey 2))) =
      .error .wrongPrinc ∧
    (signPac new 86400 (some (pacClient [120, 64] rfl, pacRealm)) (pacKey 1) (pacKey 2) false false).isOk = true := by
  decide +kernel

end Pac

end Krb5Rs
