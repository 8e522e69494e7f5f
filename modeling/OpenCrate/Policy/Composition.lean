import OpenCrate.Policy.Merge

/-!
# Many policies in one profile

The profile in a lease is merged of many policies: the server's own, those of the rules that the recipient fell
under, and what every link of a delegation adds. To decide under the merged profile is to decide under each of the
policies (`merged_profile_decides_as_all`), but for two things. A window and a duration from first open are not
expressed together, and are denied. And where one of the policies asks for the network at every open, the others are
enforced as if they asked for it, too, so that what they say of the length of a lease is not looked at.

Hence adding policies takes access away, and it gives access exactly where it hides a length
(`more_profiles_widen_iff`).
-/

namespace OpenCrate

open Except (check_bind_eq_ok_iff refuseIf_eq_ok_iff)

/-! ### Periods -/

namespace Validity

/-- The period is a window. -/
def isWindow : Validity → Bool
  | .window _ _ => true
  | .always | .fromFirstOpen _ => false

/-- The period is counted from the first open. -/
def isDuration : Validity → Bool
  | .fromFirstOpen _ => true
  | .always | .window _ _ => false

/-- Two periods that are not expressed together. -/
def Clash (v w : Validity) : Prop := v.isWindow ∧ w.isDuration ∨ v.isDuration ∧ w.isWindow

end Validity

/-- The tightened period passes where both do, unless they clash. -/
theorem checkValidity_tightenValidity_iff {v w : Validity} {ctx : Context} :
    checkValidity (tightenValidity v w) ctx = .ok () ↔
      ¬v.Clash w ∧ checkValidity v ctx = .ok () ∧ checkValidity w ctx = .ok () := by
  have himpossible : ∀ {c : Prop}, c → (checkValidity impossible ctx = .ok () ↔ ¬c ∧
      checkValidity v ctx = .ok () ∧ checkValidity w ctx = .ok ()) := by
    intro c hc
    exact iff_of_false (checkValidity_impossible_ne_ok ctx) fun h ↦ h.1 hc
  cases v with
  | always => simp [tightenValidity, Validity.Clash, Validity.isWindow, Validity.isDuration, checkValidity]
  | window aFrom aTo =>
    cases w with
    | always => simp [tightenValidity, Validity.Clash, Validity.isWindow, Validity.isDuration, checkValidity]
    | window bFrom bTo =>
      simp only [tightenValidity, checkValidity, check_bind_eq_ok_iff, refuseIf_eq_ok_iff, not_lt, max_le_iff,
        le_min_iff, Validity.Clash, Validity.isWindow, Validity.isDuration]
      tauto
    | fromFirstOpen b => exact himpossible (Or.inl ⟨rfl, rfl⟩)
  | fromFirstOpen a =>
    cases w with
    | always => simp [tightenValidity, Validity.Clash, Validity.isWindow, Validity.isDuration, checkValidity]
    | window bFrom bTo => exact himpossible (Or.inr ⟨rfl, rfl⟩)
    | fromFirstOpen b =>
      have hclash : ¬(Validity.fromFirstOpen a).Clash (.fromFirstOpen b) := by
        simp [Validity.Clash, Validity.isWindow]
      rw [and_iff_right hclash]
      rcases hfirst : ctx.firstOpenAt with - | first
      · simp only [tightenValidity, checkValidity, hfirst, and_self]
      · have hmono : Monotone first.saturatingAdd := fun _ _ h ↦ Int64.saturatingAdd_mono_right first h
        have hmin : first.saturatingAdd (min a b) = min (first.saturatingAdd a) (first.saturatingAdd b) :=
          hmono.map_min
        simp only [tightenValidity, checkValidity, hfirst, refuseIf_eq_ok_iff, not_lt, hmin, le_min_iff]

/-- Tightening keeps the kinds of periods, unless they clash. -/
theorem isWindow_tightenValidity {v w : Validity} (h : ¬v.Clash w) :
    (tightenValidity v w).isWindow = (v.isWindow || w.isWindow) := by
  cases v <;> cases w <;> simp_all [tightenValidity, Validity.Clash, Validity.isWindow, Validity.isDuration]

theorem isDuration_tightenValidity {v w : Validity} (h : ¬v.Clash w) :
    (tightenValidity v w).isDuration = (v.isDuration || w.isDuration) := by
  cases v <;> cases w <;> simp_all [tightenValidity, Validity.Clash, Validity.isWindow, Validity.isDuration]

/-! ### Two policies -/

section Pair

variable {p q : Policy} {lease : LeaseFacts} {action : Action} {ctx : Context}

/-- Two requirements of one kind are met together. -/
theorem checkNetwork_tightenNetwork_iff {m n : Network} (h : m = .strictOnline ↔ n = .strictOnline) :
    checkNetwork (tightenNetwork m n) lease ctx = .ok () ↔
      checkNetwork m lease ctx = .ok () ∧ checkNetwork n lease ctx = .ok () := by
  rcases m with - | ⟨s, off⟩
  · rw [h.mp rfl, tightenNetwork, and_self]
  · rcases n with - | ⟨s', off'⟩
    · exact absurd (h.mpr rfl) (by simp)
    · simp only [tightenNetwork, checkNetwork, refuseIf_eq_ok_iff, not_or, not_lt, le_min_iff]
      tauto

/-- The check without a network is both checks, if the networks ask for it alike. -/
theorem checkOffline_tightenNetwork_iff {m n : Network} (h : m = .strictOnline ↔ n = .strictOnline) :
    checkOffline (tightenNetwork m n) lease ctx = .ok () ↔
      checkOffline m lease ctx = .ok () ∧ checkOffline n lease ctx = .ok () := by
  rcases m with - | ⟨s, off⟩
  · rw [h.mp rfl, tightenNetwork, and_self]
  · rcases n with - | ⟨s', off'⟩
    · exact absurd (h.mpr rfl) (by simp)
    · rw [tightenNetwork]
      unfold checkOffline
      rcases ctx.online with - | -
      · simp only [refuseIf_eq_ok_iff, not_lt, le_min_iff]
      · simp only [and_self]

/-- **The merge of two policies of one kind admits what both admit**, unless their periods clash. -/
theorem admits_intersect_iff (hsame : p.network = .strictOnline ↔ q.network = .strictOnline) :
    Admits (intersect p q) lease action ctx ↔
      ¬p.validity.Clash q.validity ∧ Admits p lease action ctx ∧ Admits q lease action ctx := by
  constructor
  · intro h
    have hunderstood : ∀ k, k ∉ p.unknownActions ∧ k ∉ q.unknownActions := by
      intro k
      rw [← not_or, ← BTreeSet.mem_union]
      exact h.understood k
    have hbinding := h.binding
    rw [bindingFor_intersect, max_le_iff] at hbinding
    have hnetwork := (checkNetwork_tightenNetwork_iff hsame).mp h.network
    have hoffline := (checkOffline_tightenNetwork_iff hsame).mp h.offline
    obtain ⟨hclash, hvalidity⟩ := checkValidity_tightenValidity_iff.mp h.validity
    have hopens := checkOpens_tightenMaxOpens_iff.mp h.opens
    have hrule := (rule_intersect_eq_allow_iff p q).mp h.rule
    exact ⟨hclash,
      ⟨fun k ↦ (hunderstood k).1, h.floor, hbinding.1, h.identity, h.tpmClock, h.issued, hnetwork.1,
        h.hardwareElapsed, h.expiry, hoffline.1, hvalidity.1, hopens.1, h.budget, hrule.1⟩,
      ⟨fun k ↦ (hunderstood k).2, h.floor, hbinding.2, h.identity, h.tpmClock, h.issued, hnetwork.2,
        h.hardwareElapsed, h.expiry, hoffline.2, hvalidity.2, hopens.2, h.budget, hrule.2⟩⟩
  · intro h
    obtain ⟨hclash, hp, hq⟩ := h
    refine ⟨fun k hk ↦ ?_, hp.floor, ?_, hp.identity, hp.tpmClock, hp.issued,
      (checkNetwork_tightenNetwork_iff hsame).mpr ⟨hp.network, hq.network⟩, hp.hardwareElapsed, hp.expiry,
      (checkOffline_tightenNetwork_iff hsame).mpr ⟨hp.offline, hq.offline⟩,
      checkValidity_tightenValidity_iff.mpr ⟨hclash, hp.validity, hq.validity⟩,
      checkOpens_tightenMaxOpens_iff.mpr ⟨hp.opens, hq.opens⟩, hp.budget,
      (rule_intersect_eq_allow_iff p q).mpr ⟨hp.rule, hq.rule⟩⟩
    · exact (BTreeSet.mem_union.mp hk).elim (hp.understood k) (hq.understood k)
    · rw [bindingFor_intersect]
      exact max_le hp.binding hq.binding

/-- The obligations of a merge are those of its parts together. -/
theorem obligationsOf_intersect :
    obligationsOf (intersect p q) = ⟨p.watermark || q.watermark,
      (p.rule .screenshot != .allow) || (q.rule .screenshot != .allow), true⟩ := by
  have hrule : ((intersect p q).rule .screenshot != .allow) =
      ((p.rule .screenshot != .allow) || (q.rule .screenshot != .allow)) := by
    rw [Bool.eq_iff_iff]
    simp only [bne_iff_ne, ne_eq, rule_intersect_eq_allow_iff, not_and_or, Bool.or_eq_true]
  rw [obligationsOf, hrule]
  rfl

end Pair

/-! ### Many policies -/

/-- One of the policies asks for the network at every open. -/
def AsksForNetwork (ps : List Policy) : Prop := ∃ p ∈ ps, p.network = .strictOnline

instance (ps : List Policy) : Decidable (AsksForNetwork ps) :=
  inferInstanceAs (Decidable (∃ p ∈ ps, p.network = .strictOnline))

/-- One of the policies has a window, and one a duration from first open. -/
def MixesPeriods (ps : List Policy) : Prop :=
  (∃ p ∈ ps, p.validity.isWindow) ∧ ∃ p ∈ ps, p.validity.isDuration

/-- What is enforced of a policy in the company of others: beside one that asks for the network at every open, all
of them do. -/
def Policy.among (p : Policy) (ps : List Policy) : Policy :=
  if AsksForNetwork ps then { p with network := .strictOnline } else p

/-- The obligations of many policies. -/
def obligationsOfAll (ps : List Policy) : Obligations where
  watermark := ps.any Policy.watermark
  blockScreenCapture := ps.any fun p ↦ p.rule .screenshot != .allow
  suppressCrashDumps := true

section Many

variable {p : Policy} {ps qs : List Policy} {lease : LeaseFacts} {action : Action} {ctx : Context}

/-- So it is for a list of policies. -/
theorem obligationsOf_foldl_intersect :
    obligationsOf (ps.foldl intersect p) = obligationsOfAll (p :: ps) := by
  induction ps generalizing p with
  | nil => simp [obligationsOf, obligationsOfAll]
  | cons q ps ih =>
    rw [List.foldl_cons, ih]
    have hpair := obligationsOf_intersect (p := p) (q := q)
    rw [obligationsOf, Obligations.mk.injEq] at hpair
    simp only [obligationsOfAll, List.any_cons, hpair.1, hpair.2.1, Bool.or_assoc]

/-- Two policies at the front of a list may be merged: it asks for a network as before. -/
theorem asksForNetwork_intersect {q : Policy} :
    AsksForNetwork (intersect p q :: ps) ↔ AsksForNetwork (p :: q :: ps) := by
  have hnetwork : (intersect p q).network = .strictOnline ↔
      p.network = .strictOnline ∨ q.network = .strictOnline := by
    show tightenNetwork p.network q.network = _ ↔ _
    rcases p.network with - | ⟨s, off⟩ <;> rcases q.network with - | ⟨s', off'⟩ <;> simp [tightenNetwork]
  simp only [AsksForNetwork, List.exists_mem_cons_iff, hnetwork, or_assoc]

/-- And it mixes periods as before, unless these two clash. -/
theorem mixesPeriods_intersect {q : Policy} (h : ¬p.validity.Clash q.validity) :
    MixesPeriods (intersect p q :: ps) ↔ MixesPeriods (p :: q :: ps) := by
  have hwindow : (intersect p q).validity.isWindow = (p.validity.isWindow || q.validity.isWindow) :=
    isWindow_tightenValidity h
  have hduration : (intersect p q).validity.isDuration = (p.validity.isDuration || q.validity.isDuration) :=
    isDuration_tightenValidity h
  simp only [MixesPeriods, List.exists_mem_cons_iff, hwindow, hduration, Bool.or_eq_true, or_assoc]

/-- Two policies that clash mix periods. -/
theorem MixesPeriods.of_clash {q : Policy} (h : p.validity.Clash q.validity) : MixesPeriods (p :: q :: ps) := by
  have hp : p ∈ p :: q :: ps := List.mem_cons_self
  have hq : q ∈ p :: q :: ps := List.mem_cons_of_mem _ List.mem_cons_self
  rcases h with ⟨hwindow, hduration⟩ | ⟨hduration, hwindow⟩
  · exact ⟨⟨p, hp, hwindow⟩, q, hq, hduration⟩
  · exact ⟨⟨q, hq, hwindow⟩, p, hp, hduration⟩

/-- Two policies in the company of others are of one kind. -/
theorem admits_among_iff {q : Policy} (hp : p ∈ ps) (hq : q ∈ ps) :
    Admits ((intersect p q).among ps) lease action ctx ↔ ¬p.validity.Clash q.validity ∧
      Admits (p.among ps) lease action ctx ∧ Admits (q.among ps) lease action ctx := by
  by_cases hasks : AsksForNetwork ps
  · rw [Policy.among, Policy.among, Policy.among, if_pos hasks, if_pos hasks, if_pos hasks]
    exact admits_intersect_iff (p := { p with network := .strictOnline })
      (q := { q with network := .strictOnline }) (iff_of_true rfl rfl)
  · rw [Policy.among, Policy.among, Policy.among, if_neg hasks, if_neg hasks, if_neg hasks]
    exact admits_intersect_iff (iff_of_false (fun h ↦ hasks ⟨p, hp, h⟩) fun h ↦ hasks ⟨q, hq, h⟩)

/-- **A merge of policies admits what each of them admits** in the company of the others, unless their periods mix. -/
theorem admits_foldl_intersect_iff :
    Admits (ps.foldl intersect p) lease action ctx ↔
      ¬MixesPeriods (p :: ps) ∧ ∀ q ∈ p :: ps, Admits (q.among (p :: ps)) lease action ctx := by
  induction ps generalizing p with
  | nil =>
    -- one policy is in its own company, and mixes nothing
    have hmixes : ¬MixesPeriods [p] := by
      simp only [MixesPeriods, List.mem_singleton, exists_eq_left]
      rcases p.validity with - | ⟨a, b⟩ | a <;> simp [Validity.isWindow, Validity.isDuration]
    have hamong : p.among [p] = p := by
      rw [Policy.among, ite_eq_right_iff]
      rintro ⟨q, hq, hnetwork⟩
      obtain rfl := List.mem_singleton.mp hq
      rw [← hnetwork]
    rw [List.foldl_nil, and_iff_right hmixes, List.forall_mem_singleton, hamong]
  | cons q ps ih =>
    -- merging two policies does not change what the others are asked for
    have hcompany : ∀ r : Policy, r.among (intersect p q :: ps) = r.among (p :: q :: ps) := by
      intro r
      rw [Policy.among, Policy.among]
      exact if_congr asksForNetwork_intersect rfl rfl
    have hp : p ∈ p :: q :: ps := List.mem_cons_self
    have hq : q ∈ p :: q :: ps := List.mem_cons_of_mem _ List.mem_cons_self
    rw [List.foldl_cons, ih]
    simp only [List.forall_mem_cons, hcompany, admits_among_iff hp hq]
    constructor
    · intro h
      obtain ⟨hmixes, ⟨hclash, hadmitsp, hadmitsq⟩, hrest⟩ := h
      exact ⟨fun h ↦ hmixes ((mixesPeriods_intersect hclash).mpr h), hadmitsp, hadmitsq, hrest⟩
    · intro h
      obtain ⟨hmixes, hadmitsp, hadmitsq, hrest⟩ := h
      have hclash : ¬p.validity.Clash q.validity := fun h ↦ hmixes (MixesPeriods.of_clash h)
      exact ⟨fun h ↦ hmixes ((mixesPeriods_intersect hclash).mp h), ⟨hclash, hadmitsp, hadmitsq⟩, hrest⟩

/-- A list may be merged from either end. -/
theorem foldl_intersect_assoc (p q : Policy) (ps : List Policy) :
    ps.foldl intersect (intersect p q) = intersect p (ps.foldl intersect q) := by
  induction ps generalizing q with
  | nil => rfl
  | cons r ps ih => rw [List.foldl_cons, List.foldl_cons, intersect_assoc, ih]

/-- The lease with a profile merged of policies, of which there is at least one. -/
def LeaseFacts.under (lease : LeaseFacts) (p : Policy) (ps : List Policy) : LeaseFacts :=
  { lease with serverPolicy := some (ps.foldl intersect p) }

/-- The lease without a profile. -/
def LeaseFacts.bare (lease : LeaseFacts) : LeaseFacts := { lease with serverPolicy := none }

/-- **A decision under merged policies is the decisions under each of them**, unless they mix periods. -/
theorem evaluate_under_eq_allow_iff {author : Policy} {o : Obligations} :
    evaluate author (some (lease.under p ps)) action ctx = .allow o ↔
      (¬MixesPeriods (author :: p :: ps) ∧
        ∀ q ∈ author :: p :: ps, Admits (q.among (author :: p :: ps)) lease action ctx) ∧
      o = obligationsOfAll (author :: p :: ps) := by
  have hcomposed : composed author (some (lease.under p ps)) = (p :: ps).foldl intersect author :=
    (foldl_intersect_assoc author p ps).symm
  rw [evaluate_eq_allow_iff, hcomposed, LeaseFacts.under, admits_serverPolicy_iff, admits_foldl_intersect_iff,
    obligationsOf_foldl_intersect]

/-- A policy alone decides as it admits. -/
theorem exists_evaluate_bare_iff : (∃ o, evaluate p (some lease.bare) action ctx = .allow o) ↔
    Admits p lease action ctx := by
  rw [← admits_serverPolicy_iff (s := none)]
  constructor
  · intro h
    obtain ⟨o, ho⟩ := h
    exact (evaluate_eq_allow_iff.mp ho).1
  · intro h
    exact ⟨_, evaluate_eq_allow_iff.mpr ⟨h, rfl⟩⟩

/-- **A decision under a merged profile is a decision under each of its policies**: it allows exactly if no window
is merged with a duration from first open and the author's policy and all that were merged allow, one by one, each
asking for the network at every open if one of them does; and it obliges to what any of them does. -/
theorem merged_profile_decides_as_all {author : Policy} {o : Obligations} :
    evaluate author (some (lease.under p ps)) action ctx = .allow o ↔
      ¬MixesPeriods (author :: p :: ps) ∧
      (∀ q ∈ author :: p :: ps,
        ∃ o', evaluate (q.among (author :: p :: ps)) (some lease.bare) action ctx = .allow o') ∧
      o = obligationsOfAll (author :: p :: ps) := by
  simp only [exists_evaluate_bare_iff]
  rw [evaluate_under_eq_allow_iff, and_assoc]

/-! ### Adding policies -/

/-- Of the policies `ps`, one bounds the length of a lease and the lease breaks the bound, and the company `qs` asks
for the network at every open where `ps` does not. -/
def HidesLength (ps qs : List Policy) (lease : LeaseFacts) : Prop :=
  AsksForNetwork qs ∧ ¬AsksForNetwork ps ∧
    ∃ p ∈ ps, ∃ seconds maxOfflineSeconds, p.network = .lease seconds maxOfflineSeconds ∧
      (lease.granted < 0 ∨ seconds < lease.granted)

/-- A longer list asks for more. -/
theorem AsksForNetwork.mono (hsub : ps ⊆ qs) (h : AsksForNetwork ps) : AsksForNetwork qs := by
  obtain ⟨r, hr, hnetwork⟩ := h
  exact ⟨r, hsub hr, hnetwork⟩

theorem MixesPeriods.mono (hsub : ps ⊆ qs) (h : MixesPeriods ps) : MixesPeriods qs := by
  obtain ⟨⟨r, hr, hwindow⟩, t, ht, hduration⟩ := h
  exact ⟨⟨r, hsub hr, hwindow⟩, t, hsub ht, hduration⟩

theorem obligationsOfAll_mono (hsub : ps ⊆ qs) : (obligationsOfAll qs).AtLeastAsStrict (obligationsOfAll ps) := by
  have hany : ∀ f : Policy → Bool, ps.any f = true → qs.any f = true := by
    intro f h
    obtain ⟨r, hr, hf⟩ := List.any_eq_true.mp h
    exact List.any_eq_true.mpr ⟨r, hsub hr, hf⟩
  exact ⟨hany _, hany _⟩

/-- A policy admits online where it admits as one that asks for the network, unless the lease is too long for it. -/
theorem admits_of_strictOnline_iff (h : Admits { p with network := .strictOnline } lease action ctx) :
    Admits p lease action ctx ↔ ∀ seconds maxOfflineSeconds, p.network = .lease seconds maxOfflineSeconds →
      ¬(lease.granted < 0 ∨ seconds < lease.granted) := by
  have honline : ¬ctx.online = false := refuseIf_eq_ok_iff.mp h.network
  constructor
  · intro hp seconds maxOfflineSeconds hnetwork
    have hcheck := hp.network
    rw [hnetwork] at hcheck
    exact refuseIf_eq_ok_iff.mp hcheck
  · intro hlength
    have hstricter : Stricter { p with network := .strictOnline } p :=
      ⟨fun _ hk ↦ hk, fun _ ↦ le_rfl, fun _ hv ↦ hv, fun _ ho ↦ ho, fun _ hr ↦ hr, id⟩
    refine Admits.of_stricter hstricter ?_ ?_ h
    · rcases hnetwork : p.network with - | ⟨seconds, maxOfflineSeconds⟩
      · exact h.network
      · exact refuseIf_eq_ok_iff.mpr (hlength _ _ hnetwork)
    · exact checkOffline_eq_ok_iff.mpr fun hoff ↦ absurd hoff honline

/-- **Adding policies takes access away, but for a length.** Where a lease allows an action under many policies, it
allows it, too, under the author's and some of them, with obligations that are no stricter, unless those that are
missing are the ones that asked for the network at every open, and hid that the lease is longer than one of the
others lets it be. -/
theorem more_profiles_widen_iff {author q : Policy} {o : Obligations} (hsub : p :: ps ⊆ q :: qs)
    (h : evaluate author (some (lease.under q qs)) action ctx = .allow o) :
    (∃ o', evaluate author (some (lease.under p ps)) action ctx = .allow o' ∧ o.AtLeastAsStrict o') ↔
      ¬HidesLength (author :: p :: ps) (author :: q :: qs) lease := by
  have hsub' : author :: p :: ps ⊆ author :: q :: qs := List.cons_subset_cons author hsub
  obtain ⟨⟨hmixes, hadmits⟩, rfl⟩ := evaluate_under_eq_allow_iff.mp h
  have hallowed : (∃ o', evaluate author (some (lease.under p ps)) action ctx = .allow o' ∧
      (obligationsOfAll (author :: q :: qs)).AtLeastAsStrict o') ↔
      ∀ r ∈ author :: p :: ps, Admits (r.among (author :: p :: ps)) lease action ctx := by
    constructor
    · intro h'
      obtain ⟨o', ho', -⟩ := h'
      exact (evaluate_under_eq_allow_iff.mp ho').1.2
    · intro h'
      exact ⟨_, evaluate_under_eq_allow_iff.mpr ⟨⟨fun hmix ↦ hmixes (hmix.mono hsub'), h'⟩, rfl⟩,
        obligationsOfAll_mono hsub'⟩
  rw [hallowed, HidesLength]
  by_cases hasks : AsksForNetwork (author :: p :: ps)
  · refine iff_of_true (fun r hr ↦ ?_) fun hhides ↦ hhides.2.1 hasks
    have hr' := hadmits r (hsub' hr)
    rw [Policy.among, if_pos (hasks.mono hsub')] at hr'
    rwa [Policy.among, if_pos hasks]
  · have hplain : ∀ r : Policy, r.among (author :: p :: ps) = r := fun r ↦ if_neg hasks
    simp only [hplain]
    by_cases hasks' : AsksForNetwork (author :: q :: qs)
    · have hr' : ∀ r ∈ author :: p :: ps, Admits { r with network := .strictOnline } lease action ctx := by
        intro r hr
        have hr' := hadmits r (hsub' hr)
        rwa [Policy.among, if_pos hasks'] at hr'
      constructor
      · intro hall hhides
        obtain ⟨-, -, r, hr, seconds, maxOfflineSeconds, hnetwork, hlong⟩ := hhides
        exact (admits_of_strictOnline_iff (hr' r hr)).mp (hall r hr) _ _ hnetwork hlong
      · intro hhides r hr
        refine (admits_of_strictOnline_iff (hr' r hr)).mpr fun seconds maxOfflineSeconds hnetwork hlong ↦ ?_
        exact hhides ⟨hasks', hasks, r, hr, seconds, maxOfflineSeconds, hnetwork, hlong⟩
    · refine iff_of_true (fun r hr ↦ ?_) fun hhides ↦ hasks' hhides.1
      have hr' := hadmits r (hsub' hr)
      rwa [Policy.among, if_neg hasks'] at hr'

end Many

end OpenCrate
