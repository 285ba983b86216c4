import Krb5Rs.Transit

/-!
# The check of a transited list

The expansion visits the same realms whatever its callback does, and none of
them is empty; so the check looks at every realm that decoding yields.
-/

namespace Krb5Rs

namespace Transit

open Wire (Bytes)
open Visit (Walk Caller)

/-! ## The expansion only passes realms on -/

abbrev NonEmpty (r : Bytes) : Prop := r ≠ []

theorem walk_betweenNames (n1 n2 : Bytes) (hlen : n1.length ≤ n2.length) :
    Walk NonEmpty (fun _ f => betweenNames f n1 n2 : Caller Bytes TransitError Unit) := by
  unfold betweenNames
  split
  · split
    · exact Walk.pure ()
    · exact Walk.throw _
  · split
    · exact Walk.throw _
    · split
      · split
        · exact Walk.throw _
        · apply Walk.forM
          intro i hi
          split
          · apply Walk.call
            intro h
            have := List.mem_range'_1.mp hi
            rcases List.take_eq_nil_iff.mp h with hi | hn
            · omega
            · have := congrArg List.length hn
              simp only [List.length_nil] at this
              omega
          · exact Walk.pure ()
      · split
        · exact Walk.throw _
        · apply Walk.forM
          intro i hi
          split
          · apply Walk.call
            intro h
            have := List.mem_range'_1.mp (List.mem_reverse.mp hi)
            have := List.drop_eq_nil_iff.mp h
            omega
          · exact Walk.pure ()

theorem walk_processIntermediates (n1 n2 : Bytes) :
    Walk NonEmpty (fun _ f => processIntermediates f n1 n2 : Caller Bytes TransitError Unit) := by
  unfold processIntermediates
  split
  · exact walk_betweenNames n2 n1 (by omega)
  · exact walk_betweenNames n1 n2 (by omega)

theorem maybeJoin_ne_nil {last buf joined : Bytes} (h : maybeJoin last buf = .ok joined) (hbuf : buf ≠ []) : joined ≠ [] := by
  unfold maybeJoin at h
  repeat' split at h
  all_goals cases h
  all_goals simp [hbuf]

theorem walk_reportName (last buf : Bytes) (hbuf : buf ≠ []) (between : Bool) (other : Bytes) :
    Walk NonEmpty (fun _ f => reportName f last buf between other : Caller Bytes TransitError Bytes) := by
  unfold reportName
  cases h : maybeJoin last buf with
  | error e => exact Walk.throw e
  | ok joined =>
    have hcall : Walk NonEmpty (fun _ f => f joined : Caller Bytes TransitError Unit) :=
      Walk.call (maybeJoin_ne_nil h hbuf)
    have hbetween : Walk NonEmpty (fun _ f => fillIn f between joined other : Caller Bytes TransitError Unit) := by
      cases between
      · exact Walk.pure ()
      · exact walk_processIntermediates joined other
    exact hcall.bind fun _ => hbetween.bind fun _ => Walk.pure joined

theorem walk_scanByte (crealm : Bytes) (idx : Nat) (c : UInt8) (x : Scanner) :
    Walk NonEmpty (fun _ f => scanByte f crealm idx c x : Caller Bytes TransitError Scanner) := by
  unfold scanByte
  split
  · exact Walk.lift _
  split
  · exact Walk.pure _
  split
  · split
    · exact Walk.lift _
    · rename_i hbuf
      exact (walk_reportName x.last x.buf (by simpa using hbuf) x.intermediates _).bind fun _ => Walk.pure _
  split
  · exact Walk.pure _
  · exact Walk.lift _

theorem walk_scanBytes (crealm : Bytes) (idx : Nat) (rest : Bytes) (x : Scanner) :
    Walk NonEmpty (fun _ f => scanBytes f crealm idx rest x : Caller Bytes TransitError Scanner) := by
  induction rest generalizing idx x with
  | nil => exact Walk.pure x
  | cons c rest ih => exact (walk_scanByte crealm idx c x).bind fun y => ih (idx + 1) y

theorem walk_endList (srealm : Bytes) (x : Scanner) :
    Walk NonEmpty (fun _ f => endList f srealm x : Caller Bytes TransitError Unit) := by
  unfold endList
  split
  · exact walk_processIntermediates _ _
  · rename_i hbuf
    exact (walk_reportName x.last x.buf (by simpa using hbuf) x.intermediates x.last).bind fun _ => Walk.pure ()

theorem walk_foreachRealm (crealm srealm transit : Bytes) :
    Walk NonEmpty (fun _ f => foreachRealm f crealm srealm transit : Caller Bytes TransitError Unit) := by
  unfold foreachRealm
  split
  · exact Walk.pure ()
  · exact (walk_scanBytes crealm 0 transit _).bind fun x => walk_endList srealm x

/-! ## The check and the decoder agree -/

variable {realms : List Bytes}

theorem decodeTransited_ok {crealm srealm transit : Bytes} : decodeTransited crealm srealm transit = .ok realms ↔
      ∃ u, foreachRealm Visit.collect crealm srealm transit [] = .ok (u, realms) := by
  unfold decodeTransited
  cases foreachRealm Visit.collect crealm srealm transit [] with
  | error e => simp
  | ok p => obtain ⟨u, seen⟩ := p; simp

theorem decodeTransited_nonEmpty {crealm srealm transit : Bytes}
    (h : decodeTransited crealm srealm transit = .ok realms) : ∀ r ∈ realms, r ≠ [] := by
  obtain ⟨u, hu⟩ := decodeTransited_ok.mp h
  exact (walk_foreachRealm crealm srealm transit).forall_collect hu

theorem checkTransitedList_ok {trans crealm srealm : Bytes} {capaths : Option Profile.Node} {tgs : List TgsHop}
    (hnul : trans.getLast? ≠ some 0) (hne : trans ≠ []) (hanon : crealm ≠ anonymousRealm)
    (hwalk : walkRealmTree crealm srealm capaths realmBranchChar = .ok tgs) :
    checkTransitedList trans crealm srealm capaths = .ok () ↔
      ∃ u, foreachRealm (Visit.demand (fun realm => tgs.any fun h => h.realm = realm) .illCrTkt) crealm srealm trans () =
        .ok u := by
  unfold checkTransitedList
  rw [if_neg hnul, hwalk]
  simp only [List.isEmpty_iff, hne, hanon, or_self, if_false]
  show Prod.fst <$> foreachRealm _ crealm srealm trans () = .ok () ↔ _
  cases foreachRealm (Visit.demand (fun realm => tgs.any fun h => h.realm = realm) .illCrTkt) crealm srealm trans () with
  | error e => simp
  | ok p => simp

/-- Outside the anonymous realm a list without a trailing NUL passes exactly when it is empty, or decodes into
realms that all are on the path; none of them is empty. -/
theorem check_exact (trans crealm srealm : Bytes) (capaths : Option Profile.Node) (tgs : List TgsHop)
    (hnul : trans.getLast? ≠ some 0) (hanon : crealm ≠ anonymousRealm)
    (hwalk : walkRealmTree crealm srealm capaths realmBranchChar = .ok tgs) :
    (checkTransitedList trans crealm srealm capaths = .ok () ↔
        trans = [] ∨ ∃ realms, decodeTransited crealm srealm trans = .ok realms ∧
          ∀ r ∈ realms, r ≠ [] → ∃ h ∈ tgs, h.realm = r) ∧
      ∀ realms, decodeTransited crealm srealm trans = .ok realms → ∀ r ∈ realms, r ≠ [] := by
  refine ⟨?_, fun realms h => decodeTransited_nonEmpty h⟩
  by_cases hne : trans = []
  · subst hne
    simp [checkTransitedList]
  rw [checkTransitedList_ok hnul hne hanon hwalk,
    (walk_foreachRealm crealm srealm trans).demand_iff (fun realm => tgs.any fun h => h.realm = realm) .illCrTkt]
  constructor
  · rintro ⟨u, realms, hu, hall⟩
    refine Or.inr ⟨realms, decodeTransited_ok.mpr ⟨u, hu⟩, ?_⟩
    intro r hr _
    simpa using hall r hr
  · rintro (h | ⟨realms, hdec, hall⟩)
    · exact absurd h hne
    · obtain ⟨u, hu⟩ := decodeTransited_ok.mp hdec
      refine ⟨u, realms, hu, ?_⟩
      intro r hr
      simpa using hall r hr (decodeTransited_nonEmpty hdec r hr)

/-- From `G.Z` to `F.Z` the parent `Z` may be passed. -/
theorem parent_passes : walkRealmTree [71, 46, 90] [70, 46, 90] none realmBranchChar =
        .ok [⟨[71, 46, 90], [71, 46, 90]⟩, ⟨[71, 46, 90], [90]⟩, ⟨[90], [70, 46, 90]⟩] ∧
      checkTransitedList [90] [71, 46, 90] [70, 46, 90] none = .ok () :=
  ⟨rfl, (check_exact [90] [71, 46, 90] [70, 46, 90] none _ (by decide) (by decide) rfl).1.mpr
    (Or.inr ⟨[[90]], rfl, by decide⟩)⟩

end Transit

end Krb5Rs
