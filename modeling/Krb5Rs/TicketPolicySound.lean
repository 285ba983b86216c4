import Krb5Rs.TicketPolicy

/-!
# Tickets along a chain of TGS requests

Each function of the policy takes a flag or a time of the header ticket only
down, so a chain of requests never issues more than its first ticket allows.
-/

namespace Krb5Rs

open Flags
open Wire (bind_eq_ok)

namespace TicketPolicy

/-! ## Times -/

theorem secs_nonneg (d : Duration) : 0 ≤ secs d := by
  unfold secs
  split <;> omega

theorem lifetimeCap_pos {d : Option Duration} {cap : Int} (h : lifetimeCap d = some cap) : 0 < cap := by
  unfold lifetimeCap at h
  cases d with
  | none => cases h
  | some d =>
    have hd := secs_nonneg d
    simp only [Option.map_some, Option.filter_some, decide_eq_true_eq] at h
    split at h
    · cases h
      omega
    · cases h

theorem capped_le (cap : Option Int) (life : Int) : capped cap life ≤ life := by
  cases cap with
  | none => exact Int.le_refl _
  | some cap => exact Int.min_le_left _ _

theorem lt_capped {cap : Option Int} {life bound : Int} (hl : bound < life) (hc : ∀ c, cap = some c → bound < c) :
    bound < capped cap life := by
  cases cap with
  | none => exact hl
  | some cap => exact Int.lt_min.mpr ⟨hl, hc cap rfl⟩

theorem kerberosTime_nanos (v : Int) : (kerberosTime v).nanos < 2000000000 := by
  unfold kerberosTime
  split <;> exact Nat.zero_lt_succ _

theorem optionalTime_date {v : Int} (low : 0 < v) (high : v ≤ kdcInfinity) :
    optionalTime v = some (kerberosTime v) ∧ ts (kerberosTime v) = v := by
  unfold kdcInfinity at high
  constructor
  · exact if_pos (by omega)
  · unfold kerberosTime
    rw [if_pos (by omega)]
    rfl

theorem ts_kerberosTime_le {v bound : Int} (low : 0 < v) (h : v ≤ bound) : ts (kerberosTime v) ≤ bound := by
  unfold kerberosTime ts
  split
  · exact h
  · simp only
    omega

variable {opts : UInt32} {header : TicketPart}

theorem requestedRtime_pos {reqRtime reqTill endtime rtime : Int} (he : 0 < endtime)
    (h : requestedRtime opts reqRtime reqTill endtime = some rtime) : 0 < rtime ∧ rtime ≤ kdcInfinity := by
  unfold requestedRtime at h
  have hk : kdcInfinity = 4294967295 := rfl
  split at h
  · cases h
    split <;> omega
  split at h
  · cases h
    omega
  · cases h

theorem validateTimes_ok {clockskew : Duration} {now : KerberosTime}
    (h : validateTimes clockskew now header = .ok ()) :
    nanoseconds (header.starttime.getD header.authtime) ≤ nanoseconds now + Duration.nanoseconds clockskew ∧
      nanoseconds now ≤ nanoseconds header.endtime + Duration.nanoseconds clockskew := by
  unfold validateTimes at h
  dsimp only at h
  split at h
  · cases h
  split at h
  · cases h
  split at h
  · cases h
  · omega

variable {flags : UInt32}

section
variable [Alphabet] {limits : RealmLimits} {client : Option PrincipalEntry} {server : PrincipalEntry}

theorem getTicketEndtime_le {starttime endtime till : Int} (h : starttime - 2 ^ 31 ≤ endtime) :
    getTicketEndtime limits starttime endtime till client server ≤ endtime := by
  unfold getTicketEndtime
  extract_lets till' until_ life life₁ life₂ life₃ life₄
  have h₃ : life₃ ≤ life₂ := capped_le _ _
  have h₂ : life₂ ≤ life₁ := capped_le _ _
  omega

theorem getTicketEndtime_pos {starttime endtime till : Int} (hs : 0 < starttime) (he : 0 < endtime)
    (hl : 0 ≤ limits.maxLife) : 0 < getTicketEndtime limits starttime endtime till client server := by
  unfold getTicketEndtime
  extract_lets till' until_ life life₁ life₂ life₃ life₄
  have ht : 0 < till' := by
    simp only [till', kdcInfinity]
    split <;> omega
  have h₀ : -starttime < life := by
    omega
  have h₁ : -starttime < life₁ := by
    simp only [life₁]
    split
    · omega
    · exact h₀
  have h₂ : -starttime < life₂ := by
    refine lt_capped h₁ fun c hc => ?_
    obtain ⟨d, -, hd⟩ := Option.bind_eq_some_iff.mp hc
    have := lifetimeCap_pos hd
    omega
  have h₃ : -starttime < life₃ := by
    refine lt_capped h₂ fun c hc => ?_
    have := lifetimeCap_pos hc
    omega
  omega

theorem getTicketRenewtime_cases {reqRtime reqTill : Int} {tgt : Option HeaderRenewal}
    {times : Times} (hs : 0 < times.starttime) (he : 0 < times.endtime) (hl : 0 ≤ limits.maxRenewableLife)
    (ht : ∀ t, tgt = some t → contains t.flags TicketFlags.renewable = true → 0 < t.renewTill) :
    getTicketRenewtime limits opts reqRtime reqTill tgt client server flags times =
        (remove flags TicketFlags.renewable, { times with renewTill := 0 }) ∨
      ∃ rtime, 0 < rtime ∧ rtime ≤ kdcInfinity ∧
        (∀ t, tgt = some t → contains t.flags TicketFlags.renewable = true ∧ rtime ≤ t.renewTill) ∧
        getTicketRenewtime limits opts reqRtime reqTill tgt client server flags times =
          (remove flags TicketFlags.renewable ||| TicketFlags.renewable, { times with renewTill := rtime }) := by
  unfold getTicketRenewtime
  dsimp only
  split
  · exact .inl rfl
  split
  · exact .inl rfl
  rename_i hrenewable
  have hrenewable : ∀ t, tgt = some t → contains t.flags TicketFlags.renewable = true := by
    rintro t rfl
    simpa using hrenewable
  generalize hr : requestedRtime opts reqRtime reqTill times.endtime = r
  cases r with
  | none => exact .inl rfl
  | some rtime =>
    obtain ⟨hpos, hinf⟩ := requestedRtime_pos he hr
    simp only
    generalize hm : capped ((client.bind fun c => c.maxRenewableLife).map secs)
      (capped (server.maxRenewableLife.map secs) limits.maxRenewableLife) = maxRlife
    have hmax : 0 ≤ maxRlife := by
      have nonneg : ∀ (d : Option Duration) (c : Int), d.map secs = some c → -1 < c := by
        intro d c hc
        obtain ⟨d, -, rfl⟩ := Option.map_eq_some_iff.mp hc
        have := secs_nonneg d
        omega
      have : -1 < maxRlife := by
        rw [← hm]
        exact lt_capped (lt_capped (by omega) fun c => nonneg _ c) fun c => nonneg _ c
      omega
    split
    · exact .inl rfl
    refine .inr ⟨_, ?_, ?_, ?_, rfl⟩
    · refine Int.lt_min.mpr ⟨lt_capped hpos fun c hc => ?_, ?_⟩
      · obtain ⟨t, rfl, rfl⟩ := Option.map_eq_some_iff.mp hc
        exact ht t rfl (hrenewable t rfl)
      · unfold saturatingAdd
        omega
    · exact Int.le_trans (Int.min_le_left _ _) (Int.le_trans (capped_le _ _) hinf)
    · rintro t rfl
      refine ⟨hrenewable t rfl, ?_⟩
      simp only [Option.map_some, capped]
      omega

end

/-! ## Flags -/

structure Narrowed (header flags : UInt32) : Prop where
  forwardable : has flags 30 = true → has header 30 = true
  proxiable : has flags 28 = true → has header 28 = true
  preAuthent : has flags 21 = has header 21
  hwAuthent : has flags 20 = has header 20
  anonymous : has flags 15 = has header 15

theorem Narrowed.renewed {header : UInt32} (h : Narrowed header flags) :
    Narrowed header (remove flags TicketFlags.renewable) ∧
      Narrowed header (remove flags TicketFlags.renewable ||| TicketFlags.renewable) := by
  obtain ⟨hf, hp, ha, hw, hn⟩ := h
  constructor <;> constructor <;> simpa

theorem Narrowed.kept (h : UInt32) : Narrowed h (h &&& remove TicketFlags.all TicketFlags.invalid) := by
  have hall : has TicketFlags.all 21 = true ∧ has TicketFlags.all 20 = true ∧ has TicketFlags.all 15 = true := by decide
  constructor <;> simp +contextual [hall]

section
variable [Alphabet] {ticket : TicketPart}

theorem newFlags_lacking (opts : UInt32) (client : Option PrincipalEntry) (server : PrincipalEntry) {h : UInt32} :
    (has h 30 = false → has (newFlags opts client server (some h)) 30 = false) ∧
      (has h 28 = false → has (newFlags opts client server (some h)) 28 = false) := by
  constructor <;>
  · intro hh
    simp [newFlags, inheritedFlags, has_ite, contains_bit, hh]

theorem newFlags_inherited (opts : UInt32) (client : Option PrincipalEntry) (server : PrincipalEntry) (h : UInt32) :
    has (newFlags opts client server (some h)) 21 = has h 21 ∧
      has (newFlags opts client server (some h)) 20 = has h 20 ∧
      has (newFlags opts client server (some h)) 15 = has h 15 := by
  simp [newFlags, optionFlags, inheritedFlags, has_ite, contains_bit]
  exact .inr

theorem newFlags_narrowed (opts : UInt32) (client : Option PrincipalEntry) (server : PrincipalEntry) (h : UInt32) :
    Narrowed h (newFlags opts client server (some h)) := by
  obtain ⟨hf, hp⟩ := newFlags_lacking opts client server (h := h)
  obtain ⟨ha, hw, hn⟩ := newFlags_inherited opts client server h
  refine ⟨fun hs => ?_, fun hs => ?_, ha, hw, hn⟩
  · by_contra hh
    simp [hf (eq_false_of_ne_true hh)] at hs
  · by_contra hh
    simp [hp (eq_false_of_ne_true hh)] at hs

theorem newFlags_initial (opts : UInt32) (client : Option PrincipalEntry) (server : PrincipalEntry) (h : UInt32) :
    has (newFlags opts client server (some h)) 22 = false := by
  simp [newFlags, optionFlags, inheritedFlags, has_ite, contains_bit]

theorem getTicketFlags_narrowed (opts : UInt32) (client : Option PrincipalEntry) (server : PrincipalEntry) (h : UInt32) :
    Narrowed h (getTicketFlags opts client server (some h)) := by
  unfold getTicketFlags
  split
  · rename_i heq
    cases heq
    exact .kept h
  · exact newFlags_narrowed opts client server h

theorem getTicketFlags_initial (renew : contains opts KdcOptions.renew = false)
    (validate : contains opts KdcOptions.validate = false) (client : Option PrincipalEntry) (server : PrincipalEntry)
    (h : UInt32) : has (getTicketFlags opts client server (some h)) 22 = false := by
  have hnew : intersects opts (KdcOptions.validate ||| KdcOptions.renew) = false := by
    rw [contains_bit (by decide)] at renew validate
    rw [intersects_or, intersects_bit (by decide), intersects_bit (by decide), validate, renew]
    rfl
  unfold getTicketFlags
  rw [hnew]
  exact newFlags_initial opts client server h

theorem has_finishFlags (req : TgsRequest) (flags : UInt32) {i : Nat} (hi : i < 32) (h19 : i ≠ 19) (h30 : i ≠ 30) :
    has (finishFlags req flags) i = has flags i := by
  simp [finishFlags, s4u2selfForwardable, has_ite, hi, h19, h30]

theorem finishFlags_forwardable (req : TgsRequest) (h : has (finishFlags req flags) 30 = true) :
    has flags 30 = true := by
  by_contra hf
  simp [finishFlags, s4u2selfForwardable, has_ite, hf] at h

theorem Narrowed.finished {header : UInt32} (h : Narrowed header flags) (req : TgsRequest) :
    Narrowed header (finishFlags req flags) := by
  have kept {i : Nat} := has_finishFlags req flags (i := i)
  refine ⟨fun hs => h.forwardable (finishFlags_forwardable req hs), fun hs => h.proxiable ?_, ?_, ?_, ?_⟩
  · rwa [kept (by decide) (by decide) (by decide)] at hs
  · rw [kept (by decide) (by decide) (by decide), h.preAuthent]
  · rw [kept (by decide) (by decide) (by decide), h.hwAuthent]
  · rw [kept (by decide) (by decide) (by decide), h.anonymous]

/-! ## One request -/

theorem tgsTicket_ok {config : RealmConfig} {req : TgsRequest} (h : tgsTicket config req header = .ok ticket) :
    validateTimes config.clockskew req.now header = .ok () ∧
      checkTgsTimes req.opts ((header.renewTill.map ts).getD 0) (ts req.now) = .ok () ∧
      ticket = tgsPart config req header := by
  obtain ⟨_, hvalid, h⟩ := bind_eq_ok.mp h
  iterate 3 obtain ⟨_, -, h⟩ := bind_eq_ok.mp h
  obtain ⟨_, htimes, h⟩ := bind_eq_ok.mp h
  iterate 3 obtain ⟨_, -, h⟩ := bind_eq_ok.mp h
  refine ⟨hvalid, htimes, ?_⟩
  unfold checkTransit at h
  split at h
  · cases h
  · exact (Except.ok.inj h).symm

/-- The clock of a request: past the epoch by more than twice the clock skew, which is below 2³¹ seconds. -/
structure ClockSet (config : RealmConfig) (req : TgsRequest) : Prop where
  skew : Duration.nanoseconds config.clockskew < 2147483640000000000
  now : 2 * Duration.nanoseconds config.clockskew + 10000000000 ≤ nanoseconds req.now
  nanos : req.now.nanos < 2000000000

structure Marked (ticket : TicketPart) : Prop where
  renewable : has ticket.flags 23 = ticket.renewTill.isSome
  renewTill : ∀ r, ticket.renewTill = some r → 0 < ts r
  nanos : ticket.endtime.nanos < 2000000000

structure Weaker (opts : UInt32) (header ticket : TicketPart) : Prop where
  endtime : contains opts KdcOptions.renew = false → ts ticket.endtime ≤ ts header.endtime
  renewTill : ∀ r, ticket.renewTill = some r → ∃ r', header.renewTill = some r' ∧ ts r ≤ ts r'
  marked : contains ticket.flags TicketFlags.renewable = ticket.renewTill.isSome
  forwardable : contains ticket.flags TicketFlags.forwardable = true → contains header.flags TicketFlags.forwardable = true
  proxiable : contains ticket.flags TicketFlags.proxiable = true → contains header.flags TicketFlags.proxiable = true
  renewable : contains ticket.flags TicketFlags.renewable = true → contains header.flags TicketFlags.renewable = true
  initial : contains opts KdcOptions.renew = false → contains opts KdcOptions.validate = false →
    contains ticket.flags TicketFlags.initial = false
  anonymous : contains ticket.flags TicketFlags.anonymous = contains header.flags TicketFlags.anonymous
  preAuthent : contains ticket.flags TicketFlags.preAuthent = contains header.flags TicketFlags.preAuthent
  hwAuthent : contains ticket.flags TicketFlags.hwAuthent = contains header.flags TicketFlags.hwAuthent

section
variable {config : RealmConfig} {req : TgsRequest} {header : TicketPart}

theorem ClockSet.now_pos (clock : ClockSet config req) : 0 < ts req.now := by
  obtain ⟨_, hnow, hnanos⟩ := clock
  unfold Duration.nanoseconds nanoseconds at hnow
  unfold ts
  omega

theorem ClockSet.header_end (clock : ClockSet config req) (marked : Marked header)
    (h : validateTimes config.clockskew req.now header = .ok ()) :
    0 < ts header.endtime ∧ ts req.now - 2 ^ 31 ≤ ts header.endtime ∧
      0 < ts req.now + (ts header.endtime - ts (header.starttime.getD header.authtime)) := by
  obtain ⟨hskew, hnow, hnanos⟩ := clock
  obtain ⟨hstart, hend⟩ := validateTimes_ok h
  have hn := marked.nanos
  unfold Duration.nanoseconds nanoseconds at *
  unfold ts
  omega

section
variable (clock : ClockSet config req) (marked : Marked header)
  (hvalid : validateTimes config.clockskew req.now header = .ok ())
include clock marked hvalid

theorem tgsEndtime_le (renew : contains req.opts KdcOptions.renew = false) :
    tgsEndtime config req header ≤ ts header.endtime := by
  unfold tgsEndtime
  rw [if_neg (by simp [renew])]
  exact getTicketEndtime_le (clock.header_end marked hvalid).2.1

variable (htimes : checkTgsTimes req.opts ((header.renewTill.map ts).getD 0) (ts req.now) = .ok ())
include htimes

theorem tgsEndtime_pos : 0 < tgsEndtime config req header := by
  obtain ⟨hend, _, hlife⟩ := clock.header_end marked hvalid
  have hnow := clock.now_pos
  unfold tgsEndtime
  dsimp only
  split
  · rename_i hrenew
    unfold checkTgsTimes at htimes
    split at htimes
    · cases htimes
    · rename_i h
      simp only [hrenew, true_and, Int.not_lt] at h
      omega
  · exact getTicketEndtime_pos hnow hend (secs_nonneg _)

theorem tgsRenewal_cases : tgsRenewal config req header =
        (remove (getTicketFlags req.opts req.client req.server (some header.flags)) TicketFlags.renewable,
          tgsTimes config req header) ∨
      ∃ rtime r, 0 < rtime ∧ rtime ≤ kdcInfinity ∧ header.renewTill = some r ∧ rtime ≤ ts r ∧
        tgsRenewal config req header =
          (remove (getTicketFlags req.opts req.client req.server (some header.flags)) TicketFlags.renewable |||
              TicketFlags.renewable,
            { tgsTimes config req header with renewTill := rtime }) := by
  have hflag : contains header.flags TicketFlags.renewable = header.renewTill.isSome := by
    rw [contains_bit (by decide), marked.renewable]
  unfold tgsRenewal
  have hs := clock.now_pos
  have he : 0 < (tgsTimes config req header).endtime := tgsEndtime_pos clock marked hvalid htimes
  have hl : 0 ≤ config.limits.maxRenewableLife := secs_nonneg _
  have ht : ∀ t, some (HeaderRenewal.mk header.flags ((header.renewTill.map ts).getD 0)) = some t →
      contains t.flags TicketFlags.renewable = true → 0 < t.renewTill := by
    intro t ht hf
    cases ht
    rw [hflag] at hf
    obtain ⟨r, hr⟩ := Option.isSome_iff_exists.mp hf
    rw [hr]
    exact marked.renewTill r hr
  rcases getTicketRenewtime_cases hs he hl ht with heq | ⟨rtime, hpos, hinf, hwithin, heq⟩
  · exact .inl heq
  obtain ⟨hf, hle⟩ := hwithin _ rfl
  rw [hflag] at hf
  obtain ⟨r, hr⟩ := Option.isSome_iff_exists.mp hf
  rw [hr] at hle
  exact .inr ⟨rtime, r, hpos, hinf, hr, hle, heq⟩

theorem tgsPart_renewal :
    (has (tgsPart config req header).flags 23 = false ∧ (tgsPart config req header).renewTill = none) ∨
      has (tgsPart config req header).flags 23 = true ∧ ∃ r r', (tgsPart config req header).renewTill = some r ∧
        0 < ts r ∧ header.renewTill = some r' ∧ ts r ≤ ts r' := by
  have hbit (flags : UInt32) := has_finishFlags req flags (i := 23) (by decide) (by decide) (by decide)
  unfold tgsPart TicketPart.ofTimes
  rw [hbit]
  rcases tgsRenewal_cases clock marked hvalid htimes with heq | ⟨rtime, r, hpos, hinf, hr, hle, heq⟩
  · rw [heq]
    exact .inl ⟨by simp, rfl⟩
  · obtain ⟨hsome, hts⟩ := optionalTime_date hpos hinf
    rw [heq]
    exact .inr ⟨by simp, kerberosTime rtime, r, hsome, by rwa [hts], hr, by rwa [hts]⟩

theorem tgsPart_flags : Narrowed header.flags (tgsPart config req header).flags ∧
      (contains req.opts KdcOptions.renew = false → contains req.opts KdcOptions.validate = false →
        has (tgsPart config req header).flags 22 = false) := by
  obtain ⟨hoff, hon⟩ := (getTicketFlags_narrowed req.opts req.client req.server header.flags).renewed
  have hbit (flags : UInt32) := has_finishFlags req flags (i := 22) (by decide) (by decide) (by decide)
  unfold tgsPart TicketPart.ofTimes
  rw [hbit]
  rcases tgsRenewal_cases clock marked hvalid htimes with heq | ⟨rtime, r, _, _, _, _, heq⟩
  · rw [heq]
    refine ⟨hoff.finished req, fun renew validate => ?_⟩
    simp [getTicketFlags_initial renew validate]
  · rw [heq]
    refine ⟨hon.finished req, fun renew validate => ?_⟩
    simp [getTicketFlags_initial renew validate]

theorem tgsPart_endtime :
    (contains req.opts KdcOptions.renew = false → ts (tgsPart config req header).endtime ≤ ts header.endtime) ∧
      (contains req.opts KdcOptions.renew = true →
        ∃ r, header.renewTill = some r ∧ ts (tgsPart config req header).endtime ≤ ts r) ∧
      (tgsPart config req header).endtime.nanos < 2000000000 := by
  have hpos := tgsEndtime_pos clock marked hvalid htimes
  have hend : (tgsPart config req header).endtime = kerberosTime (tgsEndtime config req header) := by
    unfold tgsPart TicketPart.ofTimes
    rcases tgsRenewal_cases clock marked hvalid htimes with heq | ⟨rtime, r, _, _, _, _, heq⟩
    · rw [heq]
      rfl
    · rw [heq]
      rfl
  rw [hend]
  refine ⟨fun renew => ts_kerberosTime_le hpos (tgsEndtime_le clock marked hvalid renew), fun renew => ?_, ?_⟩
  · unfold checkTgsTimes at htimes
    have hle : tgsEndtime config req header ≤ (header.renewTill.map ts).getD 0 := by
      unfold tgsEndtime
      rw [if_pos renew]
      exact Int.min_le_left _ _
    cases hr : header.renewTill with
    | none =>
      rw [hr] at hle
      exact absurd hle (by simpa using hpos)
    | some r =>
      rw [hr] at hle
      exact ⟨r, rfl, ts_kerberosTime_le hpos hle⟩
  · exact kerberosTime_nanos _

end

theorem tgsTicket_weaker (clock : ClockSet config req) (marked : Marked header)
    (h : tgsTicket config req header = .ok ticket) : Weaker req.opts header ticket ∧ Marked ticket := by
  obtain ⟨hvalid, htimes, rfl⟩ := tgsTicket_ok h
  obtain ⟨hnarrow, hinitial⟩ := tgsPart_flags clock marked hvalid htimes
  obtain ⟨hend, -, hnanos⟩ := tgsPart_endtime clock marked hvalid htimes
  have hrenewal := tgsPart_renewal clock marked hvalid htimes
  have hmarked : has (tgsPart config req header).flags 23 = (tgsPart config req header).renewTill.isSome := by
    rcases hrenewal with ⟨hf, hr⟩ | ⟨hf, r, r', hr, _⟩
    · rw [hf, hr]; rfl
    · rw [hf, hr]; rfl
  have hwithin : ∀ r, (tgsPart config req header).renewTill = some r →
      0 < ts r ∧ ∃ r', header.renewTill = some r' ∧ ts r ≤ ts r' := by
    intro r hr
    rcases hrenewal with ⟨_, hnone⟩ | ⟨_, r₁, r', hr₁, hpos, hr', hle⟩
    · rw [hnone] at hr; cases hr
    · rw [hr₁] at hr
      cases hr
      exact ⟨hpos, r', hr', hle⟩
  refine ⟨⟨hend, fun r hr => (hwithin r hr).2, ?_, ?_, ?_, ?_, fun renew validate => ?_, ?_, ?_, ?_⟩,
    ⟨hmarked, fun r hr => (hwithin r hr).1, hnanos⟩⟩
  · rw [contains_bit (by decide)]
    exact hmarked
  · rw [contains_bit (by decide), contains_bit (by decide)]
    exact hnarrow.forwardable
  · rw [contains_bit (by decide), contains_bit (by decide)]
    exact hnarrow.proxiable
  · rw [contains_bit (by decide), contains_bit (by decide)]
    intro hf
    rcases hrenewal with ⟨hoff, _⟩ | ⟨_, _, r', _, _, hr', _⟩
    · exact absurd (hf.symm.trans hoff) (by decide)
    · exact marked.renewable.trans (by rw [hr']; rfl)
  · rw [contains_bit (by decide)]
    exact hinitial renew validate
  · rw [contains_bit (by decide), contains_bit (by decide)]
    exact hnarrow.anonymous
  · rw [contains_bit (by decide), contains_bit (by decide)]
    exact hnarrow.preAuthent
  · rw [contains_bit (by decide), contains_bit (by decide)]
    exact hnarrow.hwAuthent

end

/-! ## Chains -/

/-- The tickets of a chain of requests, each made with a ticket of the chain at a time the clock is set. -/
inductive Derived (initial : TicketPart) : TicketPart → Prop
  | initial : Derived initial initial
  | issue {config : RealmConfig} {req : TgsRequest} {header ticket : TicketPart} :
    Derived initial header → ClockSet config req → tgsTicket config req header = .ok ticket → Derived initial ticket

def Bounded (initial ticket : TicketPart) : Prop :=
  ts ticket.endtime ≤ ts initial.endtime ∨ ∃ r, initial.renewTill = some r ∧ ts ticket.endtime ≤ ts r

theorem Derived.bounded {initial : TicketPart} (first : Marked initial) (h : Derived initial ticket) :
    Marked ticket ∧ Bounded initial ticket ∧
      ∀ r, ticket.renewTill = some r → ∃ r', initial.renewTill = some r' ∧ ts r ≤ ts r' := by
  induction h with
  | initial => exact ⟨first, .inl (Int.le_refl _), fun r hr => ⟨r, hr, Int.le_refl _⟩⟩
  | issue _ clock hissue ih =>
    rename_i config req header ticket _
    obtain ⟨hmarked, hbound, hwithin⟩ := ih
    obtain ⟨hweaker, hmarked'⟩ := tgsTicket_weaker clock hmarked hissue
    refine ⟨hmarked', ?_, fun r hr => ?_⟩
    · cases hrenew : contains req.opts KdcOptions.renew with
      | false =>
        have hle := hweaker.endtime hrenew
        rcases hbound with hb | ⟨r, hr, hb⟩
        · exact .inl (Int.le_trans hle hb)
        · exact .inr ⟨r, hr, Int.le_trans hle hb⟩
      | true =>
        obtain ⟨hvalid, htimes, rfl⟩ := tgsTicket_ok hissue
        obtain ⟨r, hr, hle⟩ := (tgsPart_endtime clock hmarked hvalid htimes).2.1 hrenew
        obtain ⟨r', hr', hle'⟩ := hwithin r hr
        exact .inr ⟨r', hr', Int.le_trans hle hle'⟩
    · obtain ⟨r', hr', hle⟩ := hweaker.renewTill r hr
      obtain ⟨r'', hr'', hle'⟩ := hwithin r' hr'
      exact ⟨r'', hr'', Int.le_trans hle hle'⟩

omit [Alphabet] in
/-- Preauthentication sets two flags only. -/
theorem has_padata {i : Nat} (h20 : i ≠ 20) (h21 : i ≠ 21) (padata : List PaVerdict) (flags : UInt32) :
    has (padata.foldl (fun flags pa => flags ||| pa.flags) flags) i = has flags i := by
  induction padata generalizing flags with
  | nil => rfl
  | cons pa padata ih =>
    have hpa : has pa.flags i = false := by
      match pa with
      | .verified true => simp [PaVerdict.flags, h20, h21]
      | .verified false => simp [PaVerdict.flags, h21]
      | .other => exact has_zero i
      | .failed _ => exact has_zero i
    rw [List.foldl_cons, ih, has_or, hpa, Bool.or_false]

theorem asTicket_marked (config : RealmConfig) (opts : UInt32) (till : KerberosTime) (rtime : Option KerberosTime)
    {now : Int} (client server : PrincipalEntry) (padata : List PaVerdict) (hnow : 0 < now) :
    Marked (asTicket config opts till rtime now client server padata) := by
  have hs := hnow
  have he : 0 < (asTimes config till now client server).endtime :=
    getTicketEndtime_pos hnow (by decide) (secs_nonneg _)
  have hl : 0 ≤ config.limits.maxRenewableLife := secs_nonneg _
  have ht : ∀ t : HeaderRenewal, none = some t → contains t.flags TicketFlags.renewable = true → 0 < t.renewTill :=
    fun _ ht => by cases ht
  unfold asTicket TicketPart.ofTimes
  dsimp only
  rcases getTicketRenewtime_cases hs he hl ht with heq | ⟨rtime, hpos, hinf, -, heq⟩
  · rw [heq]
    exact ⟨by simp [optionalTime, has_padata], fun r hr => by simp [optionalTime] at hr, kerberosTime_nanos _⟩
  have hts := optionalTime_date hpos hinf
  rw [heq]
  refine ⟨by simp [hts.1, has_padata], fun r hr => ?_, kerberosTime_nanos _⟩
  rw [hts.1] at hr
  cases hr
  rwa [hts.2]

/-- Along a chain of requests tickets only get weaker. -/
theorem chain_only_weakens {config : RealmConfig} {req : TgsRequest} {initial header ticket : TicketPart}
    (first : Marked initial) (chain : Derived initial header) (clock : ClockSet config req)
    (h : tgsTicket config req header = .ok ticket) : Weaker req.opts header ticket ∧ Bounded initial ticket :=
  ⟨(tgsTicket_weaker clock (chain.bounded first).1 h).1, ((chain.issue clock h).bounded first).2.1⟩

section
variable {config : RealmConfig} {req : AsRequest} {initial : TicketPart}

end

end

section
attribute [local instance] Alphabet.ascii

def ticketEntry (maxRenewableLife : Option Duration) : PrincipalEntry where
  name := ⟨1, [⟨[116], rfl⟩]⟩
  realm := ⟨[84], rfl⟩
  maxRenewableLife := maxRenewableLife

def dayRealm : RealmConfig := ⟨⟨86400, 0⟩, ⟨604800, 0⟩, ⟨300, 0⟩, false⟩

def renewableTicket (now : Int) : TicketPart :=
  asTicket dayRealm (KdcOptions.renewable ||| KdcOptions.forwardable) ⟨0, 0⟩ none now (ticketEntry none) (ticketEntry none)
    []

def renewableRequest (now : Int) (maxRenewableLife : Option Duration) : TgsRequest where
  now := ⟨now, 0⟩
  opts := KdcOptions.renewable
  till := ⟨0, 0⟩
  rtime := none
  client := none
  server := ticketEntry maxRenewableLife
  headerIsTgs := true
  evidence := none
  s4u2self := false
  isReferral := false
  transitOk := true
  admitted := .ok ()
  authorized := .ok ()
  granted := .ok ()

def renewedFlags : UInt32 := TicketFlags.encPaRep ||| TicketFlags.renewable ||| TicketFlags.transitedPolicyChecked

theorem renewableTicket_weakens : Weaker KdcOptions.renewable (renewableTicket 1700000000)
        ⟨renewedFlags, ⟨1700000000, 0⟩, some ⟨1700000100, 0⟩, ⟨1700086400, 0⟩, some ⟨1700604800, 0⟩⟩ ∧
      Bounded (renewableTicket 1700000000)
        ⟨renewedFlags, ⟨1700000000, 0⟩, some ⟨1700000100, 0⟩, ⟨1700086400, 0⟩, some ⟨1700604800, 0⟩⟩ := by
  have first : Marked (renewableTicket 1700000000) := asTicket_marked _ _ _ _ _ _ _ (by decide)
  have clock : ClockSet dayRealm (renewableRequest 1700000100 none) := ⟨by decide, by decide, by decide⟩
  exact chain_only_weakens first .initial clock (by decide +kernel)

/-- At the epoch a renewal of no length is marked and absent. -/
theorem renewable_without_renewTill_at_epoch :
    tgsTicket dayRealm (renewableRequest 0 (some ⟨0, 0⟩)) (renewableTicket 0) =
        .ok ⟨renewedFlags, ⟨0, 0⟩, none, ⟨86400, 0⟩, none⟩ ∧
      contains renewedFlags TicketFlags.renewable = true := by
  decide +kernel

end

end TicketPolicy

end Krb5Rs
