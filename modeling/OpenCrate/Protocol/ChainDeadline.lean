import OpenCrate.Protocol.Attenuation

/-!
# How long the facts of a chain hold

The facts of a chain have a deadline. It is that of the last document of the chain of files, and the link
before it allows no later one. The grant of actions, which must not outlive the grant of files, has a
deadline of its own that does not enter the facts; so they are good until theirs if and only if the grant of
actions lasts as long as the last document (`holds_until_deadline_iff`).
-/

namespace OpenCrate.Protocol.Agent

open OpenCrate.Format OpenCrate.Crypto
open Except (refuseIf okOr)

variable {sha : Sha2} {ed : Ed25519}

/-! ### The deadline -/

variable (sha ed) in
/-- The deadline of the last of the links that can be read one after the other, or the one before them. -/
def lastDeadline (parentVerify : Digest) (deadline : Int64) : List (List UInt8) → Int64
  | [] => deadline
  | raw :: links =>
    match decodeDelegation sha ed raw parentVerify with
    | .ok link => lastDeadline link.childVerify link.expiresAt links
    | .error _ => deadline

/-- **The deadline after a run over the links is the one of the last link**, or the one before the run. -/
theorem expiresAt_eq_of_foldlM {withActions : Bool} {now : Int64} {links : List (List UInt8 × ℕ)}
    {facts facts' : ChainFacts} (h : links.foldlM (linkStep sha ed withActions now) facts = .ok facts') :
    facts'.expiresAt = lastDeadline sha ed facts.holderVerify facts.expiresAt (links.map Prod.fst) := by
  -- by induction on the links: each step replaces the deadline by its own
  induction links generalizing facts with
  | nil =>
    obtain rfl := Except.ok.inj h
    rfl
  | cons indexed links ih =>
    rw [List.foldlM_cons] at h
    obtain ⟨next, hstep, hrest⟩ := Except.bind_eq_ok_iff.mp h
    obtain ⟨link, actions, hfollows, -, rfl⟩ := linkStep_eq_ok_iff.mp hstep
    rw [ih hrest, List.map_cons, lastDeadline, hfollows.decoded]
    rfl

/-! ### Later times -/

/-- The clock enters the checks of a link in one place. -/
theorem Follows.at_ {now t : Int64} {facts : ChainFacts} {raw : List UInt8} {link : Delegation}
    (h : Follows sha ed now facts raw link) (ht : t ≤ link.expiresAt) : Follows sha ed t facts raw link :=
  ⟨h.decoded, h.grantId_eq, h.parentFpr_eq, h.depth_lt, h.files_subset, h.expiresAt_le, ht⟩

/-- Links that are accepted at one time are accepted, with the same facts, until the deadline. -/
theorem foldlM_until_deadline {withActions : Bool} {now t : Int64} {links : List (List UInt8 × ℕ)}
    {facts facts' : ChainFacts} (h : links.foldlM (linkStep sha ed withActions now) facts = .ok facts')
    (ht : t ≤ facts'.expiresAt) : links.foldlM (linkStep sha ed withActions t) facts = .ok facts' := by
  induction links generalizing facts with
  | nil =>
    rw [List.foldlM_nil] at h ⊢
    exact h
  | cons indexed links ih =>
    rw [List.foldlM_cons] at h
    obtain ⟨next, hstep, hrest⟩ := Except.bind_eq_ok_iff.mp h
    obtain ⟨link, actions, hfollows, hactions, rfl⟩ := linkStep_eq_ok_iff.mp hstep
    -- the deadline of the chain is not behind that of the link
    have hlink : t ≤ link.expiresAt := ht.trans (ChainFacts.Attenuates.run hrest).expiresAt_le
    have hstep' := linkStep_eq_ok_iff.mpr ⟨link, actions, hfollows.at_ hlink, hactions, rfl⟩
    rw [List.foldlM_cons]
    exact Except.bind_eq_ok_iff.mpr ⟨_, hstep', ih hrest⟩

section Chain

variable {authorKey : Digest} {grant : List UInt8} {links : List (List UInt8)}
  {actions : Option (List UInt8)} {now t : Int64} {f f' : ChainFacts}

/-- The rules of the action grant, and when they are given. -/
theorem rootActions_eq_ok_iff {signed : AgentGrant} {root : List ActionRule} :
    rootActions ed signed authorKey actions now = .ok root ↔
      (actions = none ∧ root = []) ∨
        ∃ bytes granted, actions = some bytes ∧ Action.decodeGrant ed bytes authorKey = .ok granted ∧
          granted.grantId = signed.grantId ∧ granted.expiresAt ≤ signed.expiresAt ∧
          granted.issuedAt ≤ now ∧ now ≤ granted.expiresAt ∧ granted.rules = root := by
  cases actions with
  | none => simp [rootActions, eq_comm]
  | some bytes =>
    simp only [rootActions, Except.bind_eq_ok_iff, Except.mapError_eq_ok_iff, Except.refuseIf_eq_ok_iff,
      exists_const, not_not, not_lt, Except.ok.injEq, reduceCtorEq, false_and, false_or,
      Option.some.injEq]
    constructor
    · rintro ⟨granted, hdecoded, hrest⟩
      exact ⟨bytes, granted, rfl, hdecoded, hrest⟩
    · rintro ⟨_, granted, rfl, hdecoded, hrest⟩
      exact ⟨granted, hdecoded, hrest⟩

/-- The facts of one chain do not depend on the time. -/
theorem expiresAt_eq (h : verifyGrantChainWithActions sha ed authorKey grant links actions now = .ok f) :
    ∃ signed, decodeGrant sha ed grant authorKey = .ok signed ∧
      f.expiresAt = lastDeadline sha ed signed.doorVerify signed.expiresAt links := by
  obtain ⟨signed, root, hsigned, -, -, -, hrun⟩ := verifyGrantChainWithActions_eq_ok_iff.mp h
  have hdeadline := expiresAt_eq_of_foldlM hrun
  rw [List.zipIdx_map_fst] at hdeadline
  exact ⟨signed, hsigned, hdeadline⟩

/-- Whatever is accepted is accepted before its deadline. -/
theorem now_le_expiresAt
    (h : verifyGrantChainWithActions sha ed authorKey grant links actions now = .ok f) :
    now ≤ f.expiresAt := by
  obtain ⟨signed, root, -, -, hexpires, -, hrun⟩ := verifyGrantChainWithActions_eq_ok_iff.mp h
  exact now_le_of_foldlM hrun hexpires

/-- Behind the deadline nothing is accepted. -/
theorem exists_refusal_after_deadline
    (h : verifyGrantChainWithActions sha ed authorKey grant links actions now = .ok f)
    (ht : f.expiresAt < t) :
    ∃ refusal, verifyGrantChainWithActions sha ed authorKey grant links actions t = .error refusal := by
  cases hverify : verifyGrantChainWithActions sha ed authorKey grant links actions t with
  | error refusal => exact ⟨refusal, rfl⟩
  | ok f' =>
    obtain ⟨signed, hsigned, hdeadline⟩ := expiresAt_eq h
    obtain ⟨signed', hsigned', hdeadline'⟩ := expiresAt_eq hverify
    obtain rfl := Except.ok.inj (hsigned.symm.trans hsigned')
    have hle := now_le_expiresAt hverify
    rw [hdeadline', ← hdeadline] at hle
    exact absurd hle (not_le.mpr ht)

variable (sha ed authorKey grant links actions) in
/-- The grant of actions, if there is one, lasts as long as the last document of the chain of files. -/
def ActionsLast : Prop :=
  ∀ bytes signed granted, actions = some bytes → decodeGrant sha ed grant authorKey = .ok signed →
    Action.decodeGrant ed bytes authorKey = .ok granted →
      lastDeadline sha ed signed.doorVerify signed.expiresAt links ≤ granted.expiresAt

/-- **How long the facts hold.** What is accepted is accepted, with the same facts, at every later time up to
its deadline, and refused behind it, if and only if no grant of actions ends before the chain of files. -/
theorem holds_until_deadline_iff
    (h : verifyGrantChainWithActions sha ed authorKey grant links actions now = .ok f) :
    (∀ t, now ≤ t →
        (t ≤ f.expiresAt →
          verifyGrantChainWithActions sha ed authorKey grant links actions t = .ok f) ∧
        (f.expiresAt < t → ∃ refusal,
          verifyGrantChainWithActions sha ed authorKey grant links actions t = .error refusal)) ↔
      ActionsLast sha ed authorKey grant links actions := by
  obtain ⟨signed, root, hsigned, hissued, hexpires, hroot, hrun⟩ :=
    verifyGrantChainWithActions_eq_ok_iff.mp h
  obtain ⟨signed', hsigned', hdeadline⟩ := expiresAt_eq h
  obtain rfl := Except.ok.inj (hsigned.symm.trans hsigned')
  constructor
  · intro hholds bytes signed' granted hactions hsigned' hgranted
    obtain rfl := Except.ok.inj (hsigned.symm.trans hsigned')
    -- the facts hold at their deadline, and then so do the actions
    have hlast := (hholds f.expiresAt (now_le_expiresAt h)).1 le_rfl
    obtain ⟨signed', root', hsigned', -, -, hroot', -⟩ := verifyGrantChainWithActions_eq_ok_iff.mp hlast
    rcases rootActions_eq_ok_iff.mp hroot' with ⟨hnone, -⟩ | ⟨bytes', granted', hsome, hgranted', -, -, -, hle, -⟩
    · exact nomatch hnone.symm.trans hactions
    · obtain rfl := Option.some.inj (hactions.symm.trans hsome)
      obtain rfl := Except.ok.inj (hgranted.symm.trans hgranted')
      exact hdeadline ▸ hle
  · intro hactions t ht
    refine ⟨fun hle ↦ ?_, exists_refusal_after_deadline h⟩
    have hgrant : f.expiresAt ≤ signed.expiresAt := (ChainFacts.Attenuates.run hrun).expiresAt_le
    refine verifyGrantChainWithActions_eq_ok_iff.mpr ⟨signed, root, hsigned, hissued.trans ht,
      hle.trans hgrant, rootActions_eq_ok_iff.mpr ?_, foldlM_until_deadline hrun hle⟩
    rcases rootActions_eq_ok_iff.mp hroot with hnone |
      ⟨bytes, granted, hsome, hgranted, hid, houtlives, hstarts, -, hrules⟩
    · exact Or.inl hnone
    · have hlast := hactions bytes signed granted hsome hsigned hgranted
      rw [← hdeadline] at hlast
      exact Or.inr ⟨bytes, granted, hsome, hgranted, hid, houtlives, hstarts.trans ht, hle.trans hlast,
        hrules⟩

/-- The actions of the sample chain have the deadline of its last link. -/
theorem actionsLast_sampleChain : ActionsLast sampleSha chainEd25519 sampleAuthor sampleGrantBytes
    [sampleLinkBytes] (some sampleActionsBytes) := by
  have hgrant : decodeGrant sampleSha chainEd25519 sampleGrantBytes sampleAuthor = .ok sampleGrant := by
    decide +kernel
  have hactions : Action.decodeGrant chainEd25519 sampleActionsBytes sampleAuthor = .ok sampleActions := by
    decide +kernel
  rintro _ signed granted ⟨⟩ hsigned hgranted
  obtain rfl := Except.ok.inj (hgrant.symm.trans hsigned)
  obtain rfl := Except.ok.inj (hactions.symm.trans hgranted)
  decide +kernel

/-- The facts of the sample chain hold until the deadline of its link. -/
theorem holds_until_deadline_sampleChain :
    verifyGrantChainWithActions sampleSha chainEd25519 sampleAuthor sampleGrantBytes
        [sampleLinkBytes] (some sampleActionsBytes) 150 = .ok sampleFacts ∧
      ∃ refusal, verifyGrantChainWithActions sampleSha chainEd25519 sampleAuthor sampleGrantBytes
        [sampleLinkBytes] (some sampleActionsBytes) 151 = .error refusal := by
  have hholds := (holds_until_deadline_iff verify_sampleChain).mpr actionsLast_sampleChain
  exact ⟨(hholds 150 (by decide)).1 (by decide), (hholds 151 (by decide)).2 (by decide)⟩

/-- The sample action grant with a deadline before that of the sample link, signed by the author. -/
def briefActions : ActionGrant :=
  { sampleActions with
    expiresAt := 130
    signature :=
      ⟨[0xe8, 0x3e, 0xe5, 0x39, 0x11, 0x57, 0xa5, 0xfb, 0x39, 0xfa, 0xf5, 0x42, 0xd1, 0x5c, 0xbd, 0xba,
        0xf9, 0xdc, 0x6e, 0xd5, 0x7c, 0xa8, 0xe5, 0xc4, 0x26, 0x93, 0xd9, 0x00, 0xc1, 0x6e, 0x79, 0x35,
        0x96, 0x91, 0x57, 0x85, 0x21, 0x77, 0x64, 0xda, 0x7d, 0x33, 0xc1, 0xea, 0x5e, 0x54, 0x78, 0xa0,
        0xd6, 0x3b, 0xed, 0x43, 0x94, 0x0d, 0x2f, 0x11, 0x1c, 0x8f, 0xe4, 0x4a, 0x7c, 0x24, 0x2e, 0x04],
        rfl⟩ }

/-- Its bytes. -/
def briefActionsBytes : List UInt8 := (Action.encodeGrant briefActions).toOption.getD []

/-- Ed25519 as far as the signatures of the sample chain and that of the brief action grant go. -/
def briefEd25519 : Ed25519 where
  VerifyingKey := Digest
  fromBytes := some
  verifyStrict key message signature := chainEd25519.verifyStrict key message signature ||
    decide (key = sampleAuthor ∧ signature = briefActions.signature ∧
      (Action.grantBody briefActions).map (fun body ↦ (Action.grantTranscript body).asBytes) = .ok message)

/-- **Facts are refused before their deadline.** The brief action grant is over between the two times, and
the deadline of the facts does not say so. -/
theorem refused_before_deadline :
    verifyGrantChainWithActions sampleSha briefEd25519 sampleAuthor sampleGrantBytes
        [sampleLinkBytes] (some briefActionsBytes) 120 = .ok sampleFacts ∧
      sampleFacts.expiresAt = 150 ∧
      verifyGrantChainWithActions sampleSha briefEd25519 sampleAuthor sampleGrantBytes
        [sampleLinkBytes] (some briefActionsBytes) 140 = .error .expired := by
  decide +kernel

end Chain

end OpenCrate.Protocol.Agent
