import Krb5Rs.AuthData

/-!
# Where a ticket's authorization data comes from

The filter looks one container deep; the search for a CAMMAC looks at any depth.
So what a request puts two containers deep is copied and found, and what keeps it
from being trusted is the CAMMAC's KDC verifier. The PAC is looked for one
container deep only, where the filter leaves none.
-/

namespace Krb5Rs

open Wire (Bytes bind_eq_ok)
open Utf8 (Str)
open Pac (AuthData EncTicketPart adIfRelevant adWin2kPac)

namespace Authdata

theorem isKdcIssuedType_ifRelevant : isKdcIssuedType adIfRelevant = false := by decide

theorem encoded_eq_ok {α : Type} {x : Except String α} {a : α} (h : encoded x = .ok a) : x = .ok a := by
  cases x with
  | ok b => exact congrArg _ (Except.ok.inj h)
  | error e => cases h

theorem pacFailure_eq_ok {α : Type} {x : Except PacError α} {a : α} (h : pacFailure x = .ok a) : x = .ok a := by
  cases x with
  | ok b => exact congrArg _ (Except.ok.inj h)
  | error e => cases h

theorem mem_foldl_addNew {l out : List Str} {s : Str} (h : s ∈ l.foldl addNew out) : s ∈ out ∨ s ∈ l := by
  induction l generalizing out with
  | nil => exact .inl h
  | cons a l ih =>
    cases ih h with
    | inr h => exact .inr (List.mem_cons_of_mem _ h)
    | inl h =>
      unfold addNew at h
      split at h
      · exact .inl h
      · cases List.mem_append.mp h with
        | inl h => exact .inl h
        | inr h => exact .inr (by simp [List.mem_singleton.mp h])

section
variable [Alphabet] {σ : Type} (der : TicketDer σ)

/-! ## Nesting -/

inductive Nested : Nat → List AuthData → AuthData → Prop
  | here {list : List AuthData} {el : AuthData} (hel : el ∈ list) : Nested 0 list el
  | inside {n : Nat} {list inner : List AuthData} {c el : AuthData} (hc : c ∈ list) (hty : c.adType = adIfRelevant)
      (hinner : der.decodeList c.adData = .ok inner) (hel : Nested n inner el) : Nested (n + 1) list el

variable {der} {list list' l : List AuthData} {el c : AuthData} {tkt : EncTicketPart (TicketBody σ)}
  {request : Option RequestAuthdata}

theorem Nested.mono {n : Nat} (h : Nested der n list el) (hsub : ∀ x ∈ list, x ∈ list') : Nested der n list' el := by
  cases h with
  | here hel => exact .here (hsub _ hel)
  | inside hc hty hinner hel => exact .inside (hsub _ hc) hty hinner hel

theorem findAuthdata_container {ty : Int32} (hty : adIfRelevant ≠ ty) {bytes : Bytes} {inner : List AuthData}
    (h : der.decodeList bytes = .ok inner) (els : List AuthData) :
    findAuthdata der ty (⟨adIfRelevant, bytes⟩ :: els) = findAuthdata der ty inner ++ findAuthdata der ty els := by
  rw [findAuthdata, if_neg hty, if_pos rfl]
  split
  · rename_i inner' h'
    cases h.symm.trans h'
    rfl
  · rename_i h'
    cases h.symm.trans h'

/-! ## The filter -/

theorem of_mem_filtered (h : el ∈ filtered der list) : el ∈ list ∧ isKdcIssued der el = false := by
  obtain ⟨hmem, hel⟩ := List.mem_filter.mp h
  exact ⟨hmem, by simpa using hel⟩

theorem filtered_depth {n : Nat} (h : Nested der n (filtered der list) el)
    (hty : isKdcIssuedType el.adType = true) : 2 ≤ n := by
  cases h with
  | here hel =>
    have hissued := (of_mem_filtered hel).2
    unfold isKdcIssued at hissued
    split at hissued
    · rename_i hcontainer
      rw [hcontainer, isKdcIssuedType_ifRelevant] at hty
      cases hty
    · rw [hty] at hissued
      cases hissued
  | inside hc hcontainer hinner hel =>
    cases hel with
    | inside => omega
    | here hel =>
      have hissued := (of_mem_filtered hc).2
      simp only [isKdcIssued, hcontainer, if_true, hinner, List.any_eq_false] at hissued
      exact absurd hty (hissued _ hel)

def NoPac (der : TicketDer σ) (list : List AuthData) : Prop := ∀ el, Nested der 1 list el → el.adType ≠ adWin2kPac

theorem NoPac.tail (h : NoPac der (c :: list)) : NoPac der list :=
  fun el hel => h el (hel.mono fun _ hx => List.mem_cons_of_mem _ hx)

theorem NoPac.append (h : NoPac der list) (h' : NoPac der list') : NoPac der (list ++ list') := by
  intro el hel
  cases hel with
  | inside hc hty hinner hel =>
    cases List.mem_append.mp hc with
    | inl hc => exact h el (.inside hc hty hinner hel)
    | inr hc => exact h' el (.inside hc hty hinner hel)

theorem noPac_filtered (list : List AuthData) : NoPac der (filtered der list) := by
  intro el hel hty
  have := filtered_depth hel (by rw [hty]; decide)
  omega

theorem findPac_cons {r : Nat × List AuthData × Nat} (h : Pac.findPac der.toDer (c :: list) = .ok (some r)) :
    (r.1 = 0 ∧ ∃ el, Nested der 1 [c] el ∧ el.adType = adWin2kPac) ∨
      ∃ r', Pac.findPac der.toDer list = .ok (some r') ∧ r.1 = r'.1 + 1 := by
  have hrest : ∀ {x : Except PacError (Option (Nat × List AuthData × Nat))} {g : _ → Nat × List AuthData × Nat},
      (x.bind fun r => .ok (r.map g)) = .ok (some r) → ∃ r', x = .ok (some r') ∧ r = g r' := by
    intro x g hx
    obtain ⟨o, rfl, ho⟩ := bind_eq_ok.mp hx
    obtain ⟨r', rfl, hr⟩ := Option.map_eq_some_iff.mp (Except.ok.inj ho)
    exact ⟨r', rfl, hr.symm⟩
  unfold Pac.findPac at h
  split at h
  · obtain ⟨r', hr', rfl⟩ := hrest h
    exact .inr ⟨r', hr', rfl⟩
  rename_i hty
  rw [not_not] at hty
  obtain ⟨inner, hinner, h⟩ := bind_eq_ok.mp h
  split at h
  · rename_i j hj
    obtain ⟨hlt, hel, -⟩ := List.findIdx?_eq_some_iff_getElem.mp hj
    unfold Pac.decodeIfRelevant at hinner
    split at hinner
    · rename_i l hl
      cases hinner
      cases Except.ok.inj h
      exact .inl ⟨rfl, _, .inside List.mem_cons_self hty hl (.here (List.getElem_mem hlt)), by simpa using hel⟩
    · cases hinner
  · obtain ⟨r', hr', rfl⟩ := hrest h
    exact .inr ⟨r', hr', rfl⟩

theorem findPac_front {front : List AuthData} (hlist : NoPac der list) :
    ∀ {r : Nat × List AuthData × Nat}, Pac.findPac der.toDer (front ++ list) = .ok (some r) → r.1 < front.length := by
  induction front with
  | cons c front ih =>
    intro r h
    rw [List.length_cons]
    cases findPac_cons h with
    | inr h =>
      obtain ⟨r', hr', hi⟩ := h
      have := ih hr'
      omega
    | inl h => omega
  | nil =>
    intro r h
    exfalso
    induction list generalizing r with
    | nil => cases h
    | cons c list ih =>
      cases findPac_cons h with
      | inl h =>
        obtain ⟨-, el, hel, hty⟩ := h
        exact hlist el (hel.mono fun x hx => by simp [List.mem_singleton.mp hx]) hty
      | inr h =>
        obtain ⟨r', hr', -⟩ := h
        exact ih hlist.tail hr'

/-! ## What the KDC adds -/

def PacContainer (der : TicketDer σ) (el : AuthData) : Prop :=
  ∃ data, Pac.ifRelevant der.toDer [Pac.pacElement data] = .ok el

def CammacContainer (der : TicketDer σ) (el : AuthData) : Prop :=
  ∃ d bs, der.encodeList [⟨adCammac, d⟩] = .ok bs ∧ el = ⟨adIfRelevant, bs⟩

theorem noPac_cammac (h : ∀ el ∈ list, CammacContainer der el) : NoPac der list := by
  intro el hel
  cases hel with
  | inside hc hty hinner hel =>
    obtain ⟨d, bs, hbs, rfl⟩ := h _ hc
    cases (der.decode_encode _ _ hbs).symm.trans hinner
    cases hel with
    | here hel =>
      rw [List.mem_singleton.mp hel]
      exact show adCammac ≠ adWin2kPac by decide

theorem copied_eq (h : copied der list = .ok l) : l = filtered der list := by
  unfold copied at h
  split at h
  · cases h
  · exact (Except.ok.inj h).symm

theorem copySubject_eq (h : copySubject der tkt = .ok l) : ∃ list, l = filtered der list := by
  unfold copySubject at h
  split at h
  · exact ⟨[], (Except.ok.inj h).symm⟩
  · exact ⟨_, copied_eq h⟩

section
variable [Crypto]

theorem copyRequest_eq (h : copyRequest der request = .ok l) : ∃ list, l = filtered der list := by
  unfold copyRequest at h
  split at h
  · exact ⟨[], (Except.ok.inj h).symm⟩
  · obtain ⟨decoded, -, h⟩ := bind_eq_ok.mp h
    exact ⟨decoded, copied_eq h⟩

end

section
variable [Pac.Checksums]
  {part' part : EncTicketPart (TicketBody σ)} {indicators : List Str} {serverKey : EncryptionKey}
  {localTgt server tgt : PrincipalEntry} {config : KdcConfig} {s4u : S4uPac}

theorem addAuthIndicators_eq (h : addAuthIndicators der part indicators serverKey localTgt = .ok part') :
    ∃ back, part'.authorizationData.getD [] = part.authorizationData.getD [] ++ back ∧
      ∀ el ∈ back, CammacContainer der el := by
  unfold addAuthIndicators at h
  split at h
  · cases h
    exact ⟨[], by simp, fun el hel => absurd hel List.not_mem_nil⟩
  obtain ⟨strings, -, h⟩ := bind_eq_ok.mp h
  obtain ⟨key, -, h⟩ := bind_eq_ok.mp h
  obtain ⟨encpart, -, h⟩ := bind_eq_ok.mp h
  obtain ⟨kdcMac, -, h⟩ := bind_eq_ok.mp h
  obtain ⟨list, -, h⟩ := bind_eq_ok.mp h
  obtain ⟨svcMac, -, h⟩ := bind_eq_ok.mp h
  obtain ⟨cammac, -, h⟩ := bind_eq_ok.mp h
  obtain ⟨inner, hinner, h⟩ := bind_eq_ok.mp h
  cases h
  refine ⟨[⟨adIfRelevant, inner⟩], rfl, fun el hel => ?_⟩
  exact ⟨cammac, inner, encoded_eq_ok hinner, List.mem_singleton.mp hel⟩

theorem kdcSignTicket_first {pac : Pac} {server : PrincipalName}
    {client : Option (PrincipalName × Str)} {privsvrKey : EncryptionKey} {withRealm : Bool}
    {r : EncTicketPart (TicketBody σ) × Pac}
    (h : Pac.kdcSignTicket der.toDer tkt pac server client serverKey privsvrKey withRealm = .ok r) :
    ∃ el, PacContainer der el ∧ r.1 = Pac.withFirst tkt el := by
  obtain ⟨dummy, -, h⟩ := bind_eq_ok.mp h
  obtain ⟨pac₁, -, h⟩ := bind_eq_ok.mp h
  obtain ⟨pac₂, -, h⟩ := bind_eq_ok.mp h
  obtain ⟨real, hreal, h⟩ := bind_eq_ok.mp h
  cases h
  exact ⟨real, ⟨_, hreal⟩, rfl⟩

theorem issuePac_eq {ndr : Ndr} {subject : Pac}
    (h : issuePac der config ndr part server serverKey localTgt subject s4u = .ok part') :
    ∃ el, PacContainer der el ∧ part'.authorizationData.getD [] = el :: part.authorizationData.getD [] := by
  obtain ⟨pac₁, -, h⟩ := bind_eq_ok.mp h
  obtain ⟨pac₂, -, h⟩ := bind_eq_ok.mp h
  obtain ⟨privsvr, -, h⟩ := bind_eq_ok.mp h
  obtain ⟨signed, hsigned, h⟩ := bind_eq_ok.mp h
  cases h
  obtain ⟨el, hel, heq⟩ := kdcSignTicket_first (pacFailure_eq_ok hsigned)
  exact ⟨el, hel, by rw [heq]; rfl⟩

/-! ## Indicators -/

def KdcSigned (der : TicketDer σ) (part : EncTicketPart (TicketBody σ)) (tgt : PrincipalEntry) (cammac : Cammac) :
    Prop :=
  ∃ ver key data, cammac.kdcVerifier = some ver ∧ tgtKey tgt (verifierSel ver) = some key ∧
    kdcverEncpart der part cammac.elements = .ok data ∧ checksum key.key data = .ok ver.mac

theorem kdcSigned_of_verified {cammac : Cammac}
    (h : kdcVerified der part tgt cammac = true) : KdcSigned der part tgt cammac := by
  unfold kdcVerified at h
  split at h
  · cases h
  rename_i ver hver
  split at h
  · cases h
  rename_i key hkey
  split at h
  · cases h
  split at h
  · cases h
  · rename_i data hdata
    split at h
    · cases h
    · rename_i want hwant
      exact ⟨ver, key, data, hver, hkey, hdata, of_decide_eq_true h ▸ hwant⟩

theorem mem_getAuthIndicators {s : Str} (h : s ∈ getAuthIndicators der part tgt) :
    ∃ cammac, KdcSigned der part tgt cammac ∧ s ∈ indicatorStrings der cammac.elements := by
  cases mem_foldl_addNew h with
  | inl h => exact absurd h List.not_mem_nil
  | inr h =>
    obtain ⟨d, -, hd⟩ := List.mem_flatMap.mp h
    unfold cammacIndicators at hd
    split at hd
    · exact absurd hd List.not_mem_nil
    rename_i cammac _
    split at hd
    · rename_i hverified
      exact ⟨cammac, kdcSigned_of_verified hverified, hd⟩
    · exact absurd hd List.not_mem_nil

/-! ## The issued ticket -/

variable [Crypto]

theorem issueTgsAuthdata_eq {ndr : Ndr} {issued subjectTkt : EncTicketPart (TicketBody σ)}
    {subjectPac : Option Pac} (h : issueTgsAuthdata der config ndr part server serverKey localTgt request subjectTkt subjectPac s4u indicators =
      .ok issued) :
    ∃ own inherited front back, copyRequest der request = .ok own ∧ copySubject der subjectTkt = .ok inherited ∧
      issued.authorizationData.getD [] = front ++ (own ++ inherited ++ back) ∧
      (∀ el ∈ front, PacContainer der el) ∧ ∀ el ∈ back, CammacContainer der el := by
  obtain ⟨own, hown, h⟩ := bind_eq_ok.mp h
  obtain ⟨inherited, hinherited, h⟩ := bind_eq_ok.mp h
  have hlist : (if own ++ inherited = [] then none else some (own ++ inherited)).getD [] = own ++ inherited := by
    split
    · rename_i hnil
      rw [hnil]
      rfl
    · rfl
  split at h
  · cases h
    exact ⟨own, inherited, [], [], hown, hinherited, by simpa using hlist, by simp, by simp⟩
  obtain ⟨marked, hmarked, h⟩ := bind_eq_ok.mp h
  obtain ⟨back, hback, hcammac⟩ := addAuthIndicators_eq hmarked
  rw [hlist] at hback
  refine ⟨own, inherited, ?_⟩
  have hplain : marked = issued → ∃ front back, copyRequest der request = .ok own ∧
      copySubject der subjectTkt = .ok inherited ∧
      issued.authorizationData.getD [] = front ++ (own ++ inherited ++ back) ∧
      (∀ el ∈ front, PacContainer der el) ∧ ∀ el ∈ back, CammacContainer der el :=
    fun he => ⟨[], back, hown, hinherited, he ▸ hback, by simp, hcammac⟩
  split at h
  · exact hplain (Except.ok.inj h)
  split at h
  · exact hplain (Except.ok.inj h)
  · obtain ⟨el, hel, heq⟩ := issuePac_eq h
    refine ⟨[el], back, hown, hinherited, by rw [heq, hback]; rfl, ?_, hcammac⟩
    intro x hx
    exact List.mem_singleton.mp hx ▸ hel

/-- A ticket holds what was copied between what the KDC added. Nothing a KDC issues was copied from the
request within one container, the PAC found is the KDC's own, and an indicator is read only from a CAMMAC
with a checksum of the ticket under a krbtgt key. -/
theorem issued_authdata_origin {config : KdcConfig} {ndr : Ndr}
    {part issued subjectTkt : EncTicketPart (TicketBody σ)} {server localTgt : PrincipalEntry}
    {serverKey : EncryptionKey} {request : Option RequestAuthdata} {subjectPac : Option Pac} {s4u : S4uPac}
    {indicators : List Str}
    (h : issueTgsAuthdata der config ndr part server serverKey localTgt request subjectTkt subjectPac s4u indicators =
      .ok issued) :
    ∃ own inherited front back, copyRequest der request = .ok own ∧ copySubject der subjectTkt = .ok inherited ∧
      issued.authorizationData.getD [] = front ++ (own ++ inherited ++ back) ∧
      (∀ el ∈ front, PacContainer der el) ∧ (∀ el ∈ back, CammacContainer der el) ∧
      (∀ n el, Nested der n own el → isKdcIssuedType el.adType = true → 2 ≤ n) ∧
      (∀ r, Pac.findPac der.toDer (issued.authorizationData.getD []) = .ok (some r) → r.1 < front.length) ∧
      ∀ tgt s, s ∈ getAuthIndicators der issued tgt →
        ∃ cammac, KdcSigned der issued tgt cammac ∧ s ∈ indicatorStrings der cammac.elements := by
  obtain ⟨own, inherited, front, back, hown, hinherited, heq, hfront, hback⟩ := issueTgsAuthdata_eq h
  obtain ⟨requested, hrequested⟩ := copyRequest_eq hown
  obtain ⟨header, hheader⟩ := copySubject_eq hinherited
  have hclear : NoPac der (own ++ inherited ++ back) := by
    subst hrequested hheader
    exact ((noPac_filtered requested).append (noPac_filtered header)).append (noPac_cammac hback)
  refine ⟨own, inherited, front, back, hown, hinherited, heq, hfront, hback, ?_, ?_, ?_⟩
  · intro n el hel hty
    subst hrequested
    exact filtered_depth hel hty
  · intro r hr
    rw [heq] at hr
    exact findPac_front hclear hr
  · intro tgt s hs
    exact mem_getAuthIndicators hs

end

end

/-! ## A planted CAMMAC -/

section

attribute [local instance] Alphabet.ascii

@[reducible] local instance authdataChecksums : Pac.Checksums := ⟨fun _ _ _ _ => .error "no checksums"⟩

attribute [local instance] Crypto.toy

def planted : List AuthData := [⟨adCammac, [99]⟩]

def plantedDer : Bytes := [0x30, 0x0c, 0x30, 0x0a, 0xa0, 3, 2, 1, 96, 0xa1, 3, 4, 1, 99]

def onceDer : Bytes := [0x30, 0x19, 0x30, 0x17, 0xa0, 3, 2, 1, 1, 0xa1, 0x10, 4, 0x0e] ++ plantedDer

def twiceDer : Bytes := [0x30, 0x26, 0x30, 0x24, 0xa0, 3, 2, 1, 1, 0xa1, 0x1d, 4, 0x1b] ++ onceDer

def once : List AuthData := [⟨adIfRelevant, plantedDer⟩]

def twice : List AuthData := [⟨adIfRelevant, onceDer⟩]

def plantedCodec : TicketDer Unit where
  encodeList l :=
    if l = planted then .ok plantedDer else if l = once then .ok onceDer else if l = twice then .ok twiceDer
    else .error "another list"
  decodeList bs :=
    if bs = plantedDer then .ok planted else if bs = onceDer then .ok once else if bs = twiceDer then .ok twice
    else .error "another encoding"
  encodeTicket _ := .error "no tickets"
  decode_encode := by
    intro l bs h
    split_ifs at h <;> cases h <;> subst l <;> rfl
  weight_le := by
    intro bs l h
    split_ifs at h <;> cases h <;> subst bs <;> decide
  encodeCammac _ := .error "no CAMMAC"
  decodeCammac _ := .error "no CAMMAC"
  encodeStrings _ := .error "no strings"
  decodeStrings _ := .error "no strings"

def authdataName : PrincipalName := ⟨1, [⟨[104], rfl⟩]⟩

def authdataServer : PrincipalEntry where
  name := authdataName
  realm := ⟨[72], rfl⟩

def authdataPart (list : Option (List AuthData)) : EncTicketPart (TicketBody Unit) :=
  ⟨⟨0, ⟨[72], rfl⟩, authdataName, ()⟩, 0, list⟩

def plantingRequest : RequestAuthdata := ⟨⟨18, 7 :: twiceDer⟩, ⟨18, [7]⟩, none⟩

def plantedIssue : Except KdcError (EncTicketPart (TicketBody Unit)) :=
  issueTgsAuthdata plantedCodec ⟨false, fun _ => true⟩ ⟨fun _ => .error .range, fun _ => []⟩ (authdataPart none)
    authdataServer ⟨18, [8]⟩ authdataServer (some plantingRequest) (authdataPart none) none .none []

theorem plantedIssue_eq : plantedIssue = .ok (authdataPart (some twice)) := by rfl

theorem planted_nested : Nested plantedCodec 2 twice ⟨adCammac, [99]⟩ :=
  .inside List.mem_cons_self rfl (show plantedCodec.decodeList onceDer = .ok once by rfl)
    (.inside List.mem_cons_self rfl (show plantedCodec.decodeList plantedDer = .ok planted by rfl)
      (.here List.mem_cons_self))

theorem planted_found : [99] ∈ findAuthdata plantedCodec adCammac twice := by
  have hne : adIfRelevant ≠ adCammac := by decide
  rw [twice, findAuthdata_container hne (show plantedCodec.decodeList onceDer = .ok once by rfl), once,
    findAuthdata_container hne (show plantedCodec.decodeList plantedDer = .ok planted by rfl), planted]
  simp [findAuthdata]

/-- A CAMMAC two containers deep in the request is copied, and the search finds it. -/
theorem planted_cammac_found :
    ∃ issued, plantedIssue = .ok issued ∧ copyRequest plantedCodec (some plantingRequest) = .ok twice ∧
      Nested plantedCodec 2 twice ⟨adCammac, [99]⟩ ∧ isKdcIssuedType adCammac = true ∧
      [99] ∈ findAuthdata plantedCodec adCammac (issued.authorizationData.getD []) :=
  ⟨_, plantedIssue_eq, by rfl, planted_nested, rfl, planted_found⟩

theorem planted_issue_origin : ∃ own inherited front back, copyRequest plantedCodec (some plantingRequest) = .ok own ∧
      copySubject plantedCodec (authdataPart none) = .ok inherited ∧
      twice = front ++ (own ++ inherited ++ back) ∧
      (∀ el ∈ front, PacContainer plantedCodec el) ∧ (∀ el ∈ back, CammacContainer plantedCodec el) ∧
      (∀ n el, Nested plantedCodec n own el → isKdcIssuedType el.adType = true → 2 ≤ n) ∧
      (∀ r, Pac.findPac plantedCodec.toDer twice = .ok (some r) → r.1 < front.length) ∧
      ∀ tgt s, s ∈ getAuthIndicators plantedCodec (authdataPart (some twice)) tgt →
        ∃ cammac, KdcSigned plantedCodec (authdataPart (some twice)) tgt cammac ∧
          s ∈ indicatorStrings plantedCodec cammac.elements :=
  issued_authdata_origin plantedIssue_eq

end

end Authdata

end Krb5Rs
