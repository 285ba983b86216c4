import Krb5Rs.PacSound

/-!
# Buffers added to a parsed PAC

Adding a buffer moves the others by the size of its entry, so every buffer keeps
its contents wherever it lies in the data. The new one starts where the data
ended: only if that was a multiple of eight does the result parse again.
-/

namespace Krb5Rs

open Wire (Bytes)

namespace Pac

structure Held (pac : Pac) : Prop where
  header : 8 + pac.buffers.length * 16 ≤ pac.data.length
  inside : ∀ b ∈ pac.buffers, 8 + pac.buffers.length * 16 ≤ b.offset ∧ b.offset + b.size.toNat ≤ pac.data.length

structure Synced (pac : Pac) : Prop where
  header : ∃ tail, pac.data = Pac.header pac.buffers ++ tail
  nonempty : pac.buffers ≠ []
  count : pac.buffers.length ≤ maxBuffers
  fits : pac.data.length < 2 ^ 63

def Aligned (pac : Pac) : Prop := ∀ b ∈ pac.buffers, b.offset % 8 = 0

variable {pac pac' : Pac}

theorem parse_eq_ok {bytes : Bytes} (h : parse bytes = .ok pac) : pac.data = bytes ∧ Held pac ∧ Aligned pac := by
  unfold parse at h
  dsimp only at h
  split at h
  case isTrue => cases h
  case isFalse =>
  split at h
  case isTrue => cases h
  case isFalse =>
  split at h
  case isTrue => cases h
  case isFalse =>
  split at h
  case isTrue => cases h
  case isFalse hheader =>
    obtain ⟨buffers, hbuffers, h⟩ := Wire.bind_eq_ok.mp h
    cases h
    have hcount : buffers.length = (le32 bytes 0).toNat := by
      rw [← (Wire.forall₂_of_mapM hbuffers).length_eq, List.length_range]
    have hall : ∀ b ∈ buffers, b.offset % 8 = 0 ∧
        8 + buffers.length * 16 ≤ b.offset ∧ b.offset + b.size.toNat ≤ bytes.length := by
      intro b hb
      obtain ⟨i, -, hi⟩ := Wire.mem_of_mapM hbuffers hb
      rw [hcount]
      obtain ⟨rfl, hok⟩ := checkInfo_eq_ok.mp (show checkInfo bytes.length _ _ = .ok b from hi)
      exact hok
    exact ⟨rfl, ⟨by rw [hcount]; exact Nat.le_of_not_lt hheader, fun b hb => (hall b hb).2⟩,
      fun b hb => (hall b hb).1⟩

theorem parse_synced (hheld : Held pac) (hsync : Synced pac) :
    parse pac.data = .ok pac' ↔ pac' = pac ∧ Aligned pac := by
  obtain ⟨tail, hdata⟩ := hsync.header
  have hoffset : ∀ b ∈ pac.buffers, b.offset < 2 ^ 64 := by
    intro b hb
    have := (hheld.inside b hb).2
    have := hsync.fits
    omega
  rw [parse_header hdata hsync.nonempty hsync.count hoffset]
  constructor
  · rintro ⟨rfl, hall⟩
    exact ⟨rfl, fun b hb => (hall b hb).1⟩
  · rintro ⟨rfl, haligned⟩
    exact ⟨rfl, fun b hb => ⟨haligned b hb, hheld.inside b hb⟩⟩

/-! ## One buffer -/

theorem addBuffer_eq_ok {ty : UInt32} {body : Bytes} (hheld : Held pac) (h : addBuffer pac ty body = .ok pac') :
    pac'.buffers = pac.buffers.map shiftInfo ++ [⟨ty, UInt32.ofNat body.length, pac.data.length + 16⟩] ∧
      pac'.data = header pac'.buffers ++ (pac.data.drop (8 + pac.buffers.length * 16) ++
        (body ++ List.replicate ((8 - body.length % 8) % 8) 0)) ∧
      pac'.buffers.length ≤ maxBuffers ∧ pac'.data.length < 2 ^ 63 := by
  have hheader := hheld.header
  unfold addBuffer at h
  dsimp only at h
  split at h
  case isTrue => cases h
  case isFalse =>
  split at h
  case isTrue => cases h
  case isFalse hcount =>
  split at h
  case isTrue => cases h
  case isFalse hfits =>
    cases h
    have hfront : (pac.data.take (8 + pac.buffers.length * 16) ++ List.replicate 16 0).length =
        8 + (pac.buffers.length + 1) * 16 := by
      simp only [List.length_append, List.length_take_of_le hheader, List.length_replicate]
      omega
    have hmoved : (pac.data.take (8 + pac.buffers.length * 16) ++ List.replicate 16 0 ++
        pac.data.drop (8 + pac.buffers.length * 16)).length = pac.data.length + 16 := by
      rw [List.length_append, hfront, List.length_drop]
      omega
    have hdata : (pac.data.take (8 + pac.buffers.length * 16) ++ List.replicate 16 0 ++
        pac.data.drop (8 + pac.buffers.length * 16) ++ body ++
        List.replicate ((8 - body.length % 8) % 8) 0).drop (8 + (pac.buffers.length + 1) * 16) =
        pac.data.drop (8 + pac.buffers.length * 16) ++ (body ++ List.replicate ((8 - body.length % 8) % 8) 0) := by
      rw [← hfront, List.append_assoc, List.append_assoc, List.drop_left]
    have hlength : ((pac.buffers.map shiftInfo) ++ [(⟨ty, UInt32.ofNat body.length, pac.data.length + 16⟩ : PacInfo)]).length =
        pac.buffers.length + 1 := by simp
    unfold syncHeader
    rw [hmoved, hlength, hdata]
    refine ⟨rfl, rfl, by omega, ?_⟩
    rw [List.length_append, header_length, hlength, ← hdata, List.length_drop]
    simp only [List.length_append, hfront, List.length_replicate] at hfits ⊢
    omega

theorem contents_shift {b : PacInfo} {rest : Bytes}
    (hb : 8 + pac.buffers.length * 16 ≤ b.offset ∧ b.offset + b.size.toNat ≤ pac.data.length)
    (hcount : pac'.buffers.length = pac.buffers.length + 1)
    (hdata : pac'.data = header pac'.buffers ++ (pac.data.drop (8 + pac.buffers.length * 16) ++ rest)) :
    contents pac' (shiftInfo b) = contents pac b := by
  have hskip : b.offset + 16 = (header pac'.buffers).length + (b.offset - (8 + pac.buffers.length * 16)) := by
    rw [header_length, hcount]
    omega
  have hinside : b.offset - (8 + pac.buffers.length * 16) + b.size.toNat ≤
      (pac.data.drop (8 + pac.buffers.length * 16)).length := by
    rw [List.length_drop]
    omega
  show slice pac'.data (b.offset + 16) b.size.toNat = slice pac.data b.offset b.size.toNat
  unfold slice
  rw [hdata, hskip, ← List.drop_drop, List.drop_left, List.drop_append_of_le_length (by omega),
    List.take_append_of_le_length (by rw [List.length_drop]; omega), List.drop_drop]
  congr 2
  omega

def PacBuffer.cut (b : PacBuffer) : PacBuffer := { b with data := b.data.take (b.data.length % 2 ^ 32) }

theorem PacBuffer.cut_eq_iff (b : PacBuffer) : b.cut = b ↔ b.data.length < 2 ^ 32 := by
  constructor
  · intro h
    have hlen := congrArg (fun b : PacBuffer => b.data.length) h
    simp only [cut, List.length_take] at hlen
    omega
  · intro h
    rw [cut, Nat.mod_eq_of_lt h, List.take_length]

structure Grown (pac : Pac) (b : PacBuffer) (pac' : Pac) : Prop where
  held : Held pac'
  synced : Synced pac'
  remainder : pac'.data.length % 8 = pac.data.length % 8
  aligned : Aligned pac' ↔ Aligned pac ∧ pac.data.length % 8 = 0
  buffers : pacBuffers pac' = pacBuffers pac ++ [b.cut]

theorem addBuffer_grown {b : PacBuffer} (hheld : Held pac) (h : addBuffer pac b.ty b.data = .ok pac') :
    Grown pac b pac' := by
  obtain ⟨hbuffers, hdata, hcount, hfits⟩ := addBuffer_eq_ok hheld h
  have hheader := hheld.header
  have hlength : pac'.buffers.length = pac.buffers.length + 1 := by rw [hbuffers]; simp
  have hdatalen : pac'.data.length = pac.data.length + 16 + (b.data.length + (8 - b.data.length % 8) % 8) := by
    rw [hdata, List.length_append, header_length, hlength]
    simp only [List.length_append, List.length_drop, List.length_replicate]
    omega
  have hsize : (UInt32.ofNat b.data.length).toNat = b.data.length % 2 ^ 32 := UInt32.toNat_ofNat'
  refine ⟨⟨by omega, ?_⟩, ⟨⟨_, hdata⟩, ?_, hcount, hfits⟩, by omega, ?_, ?_⟩
  · intro info hinfo
    rw [hbuffers, List.mem_append, List.mem_map, List.mem_singleton] at hinfo
    rcases hinfo with ⟨old, hold, rfl⟩ | rfl
    · obtain ⟨hlow, hhigh⟩ := hheld.inside old hold
      simp only [shiftInfo]
      omega
    · dsimp only
      omega
  · rw [hbuffers]
    simp
  · unfold Aligned
    rw [hbuffers]
    simp only [List.mem_append, List.mem_map, List.mem_singleton]
    constructor
    · intro hall
      refine ⟨fun old hold => ?_, ?_⟩
      · have : (shiftInfo old).offset % 8 = 0 := hall _ (.inl ⟨old, hold, rfl⟩)
        simp only [shiftInfo] at this
        omega
      · have : (pac.data.length + 16) % 8 = 0 := hall _ (.inr rfl)
        omega
    · rintro ⟨hall, hlen⟩ info (⟨old, hold, rfl⟩ | rfl)
      · have := hall old hold
        simp only [shiftInfo]
        omega
      · dsimp only
        omega
  · have hnew : contents pac' ⟨b.ty, UInt32.ofNat b.data.length, pac.data.length + 16⟩ = b.cut.data := by
      have hskip : pac.data.length + 16 =
          (header pac'.buffers ++ pac.data.drop (8 + pac.buffers.length * 16)).length := by
        rw [List.length_append, header_length, hlength, List.length_drop]
        omega
      unfold contents slice
      rw [hdata, ← List.append_assoc, hskip, List.drop_left, hsize,
        List.take_append_of_le_length (Nat.mod_le ..)]
      rfl
    have hold : (pac.buffers.map shiftInfo).map (fun info => (⟨info.ty, contents pac' info⟩ : PacBuffer)) =
        pacBuffers pac := by
      rw [List.map_map]
      refine List.map_congr_left fun info hinfo => ?_
      show (⟨info.ty, contents pac' (shiftInfo info)⟩ : PacBuffer) = ⟨info.ty, contents pac info⟩
      rw [contents_shift (hheld.inside info hinfo) hlength hdata]
    unfold pacBuffers at hold ⊢
    rw [hbuffers, List.map_append, hold, List.map_singleton, hnew]
    rfl

/-! ## Any number of buffers -/

def addBuffers (pac : Pac) (added : List PacBuffer) : Except PacError Pac :=
  added.foldlM (fun pac b => addBuffer pac b.ty b.data) pac

theorem addBuffers_grown (hheld : Held pac) {added : List PacBuffer} (h : addBuffers pac added = .ok pac') :
    Held pac' ∧ (added ≠ [] → Synced pac') ∧
      (Aligned pac' ↔ Aligned pac ∧ (added ≠ [] → pac.data.length % 8 = 0)) ∧
      pacBuffers pac' = pacBuffers pac ++ added.map PacBuffer.cut := by
  induction added generalizing pac with
  | nil =>
    cases h
    exact ⟨hheld, by simp, by simp, by simp⟩
  | cons b added ih =>
    unfold addBuffers at h
    obtain ⟨next, hnext, hrest⟩ := Wire.bind_eq_ok.mp h
    have hgrown := addBuffer_grown hheld hnext
    obtain ⟨hheld', hsync, haligned, hbuffers⟩ := ih hgrown.held hrest
    refine ⟨hheld', fun _ => ?_, ?_, ?_⟩
    · cases added with
      | nil =>
        cases hrest
        exact hgrown.synced
      | cons c added => exact hsync (List.cons_ne_nil _ _)
    · rw [haligned, hgrown.aligned, hgrown.remainder]
      constructor
      · rintro ⟨⟨hold, hlen⟩, -⟩
        exact ⟨hold, fun _ => hlen⟩
      · rintro ⟨hold, hlen⟩
        exact ⟨⟨hold, hlen (List.cons_ne_nil _ _)⟩, fun _ => hlen (List.cons_ne_nil _ _)⟩
    · rw [hbuffers, hgrown.buffers, List.map_cons, List.append_assoc]
      rfl

theorem map_cut_eq_iff (added : List PacBuffer) :
    added.map PacBuffer.cut = added ↔ ∀ b ∈ added, b.data.length < 2 ^ 32 := by
  induction added with
  | nil => simp
  | cons b added ih => rw [List.map_cons, List.cons.injEq, PacBuffer.cut_eq_iff, ih, List.forall_mem_cons]

/-- Buffers added to a parsed PAC are there when its bytes are parsed again, exactly if those it was
parsed from end at a multiple of eight and no added buffer needs more than 32 bits for its size. -/
theorem added_buffers_parsed {bytes : Bytes} {pac pac' : Pac} {added : List PacBuffer}
    (hparse : parse bytes = .ok pac) (hadd : addBuffers pac added = .ok pac') :
    (∃ again, parse pac'.data = .ok again ∧ pacBuffers again = pacBuffers pac ++ added) ↔
      added = [] ∨ bytes.length % 8 = 0 ∧ ∀ b ∈ added, b.data.length < 2 ^ 32 := by
  obtain ⟨rfl, hheld, haligned⟩ := parse_eq_ok hparse
  obtain ⟨hheld', hsync, haligned', hbuffers⟩ := addBuffers_grown hheld hadd
  cases added with
  | nil =>
    cases hadd
    simp only [true_or, iff_true]
    exact ⟨pac, hparse, by simp⟩
  | cons b added =>
    have hne := List.cons_ne_nil b added
    have hparse' : ∀ again, parse pac'.data = .ok again ↔ again = pac' ∧ Aligned pac' :=
      fun _ => parse_synced hheld' (hsync hne)
    constructor
    · rintro ⟨again, hagain, hsame⟩
      obtain ⟨rfl, hall⟩ := (hparse' again).mp hagain
      rw [hbuffers, List.append_cancel_left_eq, map_cut_eq_iff] at hsame
      exact .inr ⟨(haligned'.mp hall).2 hne, hsame⟩
    · rintro (hnil | ⟨hlen, hsizes⟩)
      · exact absurd hnil hne
      · refine ⟨pac', (hparse' pac').mpr ⟨rfl, haligned'.mpr ⟨haligned, fun _ => hlen⟩⟩, ?_⟩
        rw [hbuffers, (map_cut_eq_iff _).mpr hsizes]

def unpadded : Bytes := header [⟨1, 1, 24⟩] ++ [5]

/-- The data ends at 25, so the buffer added starts where none may. -/
theorem added_after_unpadded : ∃ pac pac', parse unpadded = .ok pac ∧ addBuffers pac [⟨2, [6]⟩] = .ok pac' ∧
      parse pac'.data = .error (.invalid "unaligned buffer") := by
  refine ⟨⟨unpadded, [⟨1, 1, 24⟩]⟩, ?_⟩
  obtain ⟨pac', hadd⟩ := Wire.exists_of_isOk (x := addBuffers ⟨unpadded, [⟨1, 1, 24⟩]⟩ [⟨2, [6]⟩]) (by decide +kernel)
  have hagain : (addBuffers ⟨unpadded, [⟨1, 1, 24⟩]⟩ [⟨2, [6]⟩] >>= fun pac' => parse pac'.data) =
      .error (.invalid "unaligned buffer") := by decide +kernel
  rw [hadd] at hagain
  exact ⟨pac', by decide +kernel, hadd, hagain⟩

/-- Two buffers that overlap in the data, and a third added. -/
theorem added_buffers_parsed_overlap :
    ∃ pac pac' again, parse (header [⟨1, 8, 40⟩, ⟨2, 4, 40⟩] ++ [1, 2, 3, 4, 5, 6, 7, 8]) = .ok pac ∧
      addBuffers pac [⟨3, [9]⟩] = .ok pac' ∧ parse pac'.data = .ok again ∧
      pacBuffers again = pacBuffers pac ++ [⟨3, [9]⟩] := by
  obtain ⟨pac, hparse⟩ := Wire.exists_of_isOk
    (x := parse (header [⟨1, 8, 40⟩, ⟨2, 4, 40⟩] ++ [1, 2, 3, 4, 5, 6, 7, 8])) (by decide +kernel)
  have hboth : (parse (header [⟨1, 8, 40⟩, ⟨2, 4, 40⟩] ++ [1, 2, 3, 4, 5, 6, 7, 8]) >>= fun pac =>
      addBuffers pac [⟨3, [9]⟩]).isOk = true := by decide +kernel
  rw [hparse] at hboth
  obtain ⟨pac', hadd⟩ := Wire.exists_of_isOk hboth
  obtain ⟨again, hagain, hbuffers⟩ :=
    (added_buffers_parsed hparse hadd).mpr (.inr ⟨by decide +kernel, by decide⟩)
  exact ⟨pac, pac', again, hparse, hadd, hagain, hbuffers⟩

end Pac

end Krb5Rs
