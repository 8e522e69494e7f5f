import OpenCrate.Protocol.Attenuation

/-!
# Actions and files

The verifier of a chain carries the actions of the holder along with the files. Nothing flows from the
one to the other: a chain that is accepted with an action grant is accepted without it and says the
same about files, and without one the optional tag of actions in a link is as good as absent, whatever
well-formed rules it holds.
-/

namespace OpenCrate.Protocol.Agent

open OpenCrate.Format OpenCrate.Crypto
open Except (refuseIf okOr)

variable {sha : Sha2} {ed : Ed25519}

/-! ### Verifying without the action grant -/

/-- What a chain says about files. -/
def ChainFacts.withoutActions (facts : ChainFacts) : ChainFacts := { facts with actions := [] }

/-- A link that follows facts follows them without their actions. -/
theorem Follows.withoutActions {now : Int64} {facts : ChainFacts} {raw : List UInt8}
    {link : Delegation} (h : Follows sha ed now facts raw link) :
    Follows sha ed now facts.withoutActions raw link :=
  ⟨h.decoded, h.grantId_eq, h.parentFpr_eq, h.depth_lt, h.files_subset, h.expiresAt_le, h.now_le⟩

/-- One link gives the same facts about files without the actions. -/
theorem linkStep_withoutActions {now : Int64} {facts facts' : ChainFacts}
    {indexed : List UInt8 × ℕ} (h : linkStep sha ed true now facts indexed = .ok facts') :
    linkStep sha ed false now facts.withoutActions indexed = .ok facts'.withoutActions := by
  obtain ⟨link, actions, hfollows, -, rfl⟩ := linkStep_eq_ok_iff.mp h
  exact linkStep_eq_ok_iff.mpr ⟨link, [], hfollows.withoutActions, rfl, rfl⟩

/-- And so does a run over the links. -/
theorem foldlM_withoutActions {now : Int64} {links : List (List UInt8 × ℕ)}
    {facts facts' : ChainFacts} (h : links.foldlM (linkStep sha ed true now) facts = .ok facts') :
    links.foldlM (linkStep sha ed false now) facts.withoutActions = .ok facts'.withoutActions := by
  -- by induction on the links: each step forgets the actions in the same way
  induction links generalizing facts with
  | nil =>
    obtain rfl := Except.ok.inj h
    rfl
  | cons indexed links ih =>
    rw [List.foldlM_cons] at h ⊢
    obtain ⟨facts₁, hstep, hrest⟩ := Except.bind_eq_ok_iff.mp h
    rw [linkStep_withoutActions hstep, Except.ok_bind]
    exact ih hrest

/-- Without an action grant the last holder has no actions. -/
theorem actions_eq_nil_of_foldlM {now : Int64} {links : List (List UInt8 × ℕ)}
    {facts facts' : ChainFacts} (h : links.foldlM (linkStep sha ed false now) facts = .ok facts')
    (hfacts : facts.actions = []) : facts'.actions = [] := by
  refine Except.foldlM_invariant (P := fun facts ↦ facts.actions = []) h hfacts ?_
  intro indexed _ c c' _ hstep
  obtain ⟨link, actions, -, hactions, rfl⟩ := linkStep_eq_ok_iff.mp hstep
  exact (Except.ok.inj hactions).symm

/-! ### Links that differ in their actions -/

/-- The value of the tag of actions, as the reader of links accepts it. -/
def WellFormedActions (value : List UInt8) : Prop :=
  ∃ rules, Action.decodeRules value = .ok rules ∧ rules.length ≤ maxActionRules ∧
    rules.forM checkRuleShape = .ok ()

/-- The link read so far, without its actions. -/
def LinkReading.withoutActions (acc : LinkReading) : LinkReading := { acc with actions := [] }

/-- No other field looks at the actions. -/
theorem decodeDelegationStep_withoutActions {f : Field} (hf : f.tag ≠ LinkTag.actions)
    (acc : LinkReading) :
    (decodeDelegationStep acc f).map LinkReading.withoutActions =
      (decodeDelegationStep acc.withoutActions f).map LinkReading.withoutActions := by
  unfold decodeDelegationStep
  split
  case h_11 heq => exact absurd heq hf
  case h_12 =>
    unfold skipUnknown
    split <;> rfl
  all_goals first | rfl | (rw [Except.map_map, Except.map_map]; rfl)

/-- A well-formed value changes the actions and nothing else. -/
theorem decodeDelegationStep_actions {value : List UInt8} (hvalue : WellFormedActions value)
    (acc : LinkReading) :
    (readField decodeDelegationStep acc (LinkTag.actions, value)).map LinkReading.withoutActions =
      .ok acc.withoutActions := by
  obtain ⟨rules, hrules, -⟩ := hvalue
  show ((Action.decodeRules value).map fun v ↦ { acc with actions := v }).map
    LinkReading.withoutActions = _
  rw [hrules]
  rfl

/-- **The reader of links forgets the actions.** Up to them it reads what stands under the other
tags. -/
theorem foldlM_decodeDelegationStep {l : Contents}
    (hwell : ∀ value, (LinkTag.actions, value) ∈ l → WellFormedActions value) :
    (l.foldlM (readField decodeDelegationStep) {}).map LinkReading.withoutActions =
      ((l.filter fun p ↦ p.1 ≠ LinkTag.actions).foldlM (readField decodeDelegationStep) {}).map
        LinkReading.withoutActions := by
  refine Except.map_foldlM_eq_filter ?_ ?_ rfl
  · intro p _ hkeep acc acc' hacc
    have hne : p.1 ≠ LinkTag.actions := by simpa using hkeep
    rw [readField, readField, decodeDelegationStep_withoutActions hne acc, hacc,
      ← decodeDelegationStep_withoutActions hne acc']
  · rintro ⟨tag, value⟩ hp hkeep acc
    obtain rfl : tag = LinkTag.actions := by simpa using hkeep
    exact decodeDelegationStep_actions (hwell value hp) acc

/-- What is read as actions is well-formed. -/
theorem actions_of_foldlM {l : Contents} {acc : LinkReading}
    (hwell : ∀ value, (LinkTag.actions, value) ∈ l → WellFormedActions value)
    (h : l.foldlM (readField decodeDelegationStep) {} = .ok acc) :
    acc.actions.length ≤ maxActionRules ∧ acc.actions.forM checkRuleShape = .ok () := by
  refine Except.foldlM_invariant (P := fun acc : LinkReading ↦
    acc.actions.length ≤ maxActionRules ∧ acc.actions.forM checkRuleShape = .ok ()) h
    ⟨Nat.zero_le _, rfl⟩ ?_
  rintro ⟨tag, value⟩ hp acc acc' hacc hstep
  by_cases htag : tag = LinkTag.actions
  · subst htag
    obtain ⟨rules, hrules, hshape⟩ := hwell value hp
    obtain ⟨rules', hrules', rfl⟩ := Except.map_eq_ok_iff.mp hstep
    obtain rfl := Except.ok.inj (hrules.symm.trans hrules')
    exact hshape
  · have hkept : acc'.actions = acc.actions := by
      unfold readField decodeDelegationStep at hstep
      split at hstep
      case h_11 heq => exact absurd heq htag
      case h_12 => rw [eq_of_skipUnknown hstep]
      case h_5 => rw [← Except.ok.inj hstep]
      all_goals
        obtain ⟨v, -, rfl⟩ := Except.map_eq_ok_iff.mp hstep
        rfl
    rwa [hkept]

/-- The shape of a link that has other actions. -/
theorem checkDelegationShape_actions {link : Delegation} {actions : List ActionRule}
    (signature : Signature) (h : checkDelegationShape sha link = .ok ())
    (hlen : actions.length ≤ maxActionRules) (hshape : actions.forM checkRuleShape = .ok ()) :
    checkDelegationShape sha { link with actions := actions, signature := signature } = .ok () := by
  simp only [checkDelegationShape, Except.check_bind_eq_ok_iff] at h ⊢
  obtain ⟨hname, hentries, hdepth, -, -⟩ := h
  exact ⟨hname, hentries, hdepth, Except.refuseIf_eq_ok_iff.mpr (not_lt.mpr hlen), hshape⟩

/-- A link that is read is read with other actions, too. -/
theorem decodeDelegationBody_alike {signature signature' : Signature} {body body' : List UInt8}
    {l l' : Contents} {link : Delegation} (henc : Encodes body l) (henc' : Encodes body' l')
    (hsame : (l.filter fun p ↦ p.1 ≠ LinkTag.actions) = l'.filter fun p ↦ p.1 ≠ LinkTag.actions)
    (hwell : ∀ value, (LinkTag.actions, value) ∈ l → WellFormedActions value)
    (hwell' : ∀ value, (LinkTag.actions, value) ∈ l' → WellFormedActions value)
    (h : decodeDelegationBody sha signature body = .ok link) :
    ∃ actions, decodeDelegationBody sha signature' body' =
      .ok { link with actions := actions, signature := signature' } := by
  simp only [decodeDelegationBody, Except.bind_eq_ok_iff] at h
  obtain ⟨acc, hacc, grantId, hgrantId, parentFpr, hparentFpr, childFpr, hchildFpr, childKem,
    hchildKem, childPublic, hchildPublic, childVerify, hchildVerify, entries, hentries, expiresAt,
    hexpiresAt, depth, hdepth, ⟨⟩, hshape, hlink⟩ := h
  obtain rfl := Except.ok.inj hlink
  rw [recordStep_decodeDelegationStep.foldFields_eq henc] at hacc
  -- the two runs agree up to the actions
  have hruns := (foldlM_decodeDelegationStep hwell).trans
    ((congrArg (fun l ↦ (List.foldlM (readField decodeDelegationStep) {} l).map
      LinkReading.withoutActions) hsame).trans (foldlM_decodeDelegationStep hwell').symm)
  rw [hacc] at hruns
  obtain ⟨acc', hacc', heq⟩ := Except.map_eq_ok_iff.mp hruns.symm
  obtain ⟨hlen, hrules⟩ := actions_of_foldlM hwell' hacc'
  have hother : acc' = { acc with actions := acc'.actions } :=
    congrArg (fun a : LinkReading ↦ { a with actions := acc'.actions }) heq
  have hshape' := checkDelegationShape_actions signature' hshape hlen hrules
  rw [hother] at hacc'
  refine ⟨acc'.actions, ?_⟩
  simp only [decodeDelegationBody, recordStep_decodeDelegationStep.foldFields_eq henc', hacc',
    Except.ok_bind, hgrantId, hparentFpr, hchildFpr, hchildKem, hchildPublic, hchildVerify, hentries,
    hexpiresAt, hdepth, hshape']

/-- Two links that are equal except for the presence and the content of the tag of actions, each with
a signature of its own. -/
inductive AlikeButActions : List UInt8 → List UInt8 → Prop
  | same (raw : List UInt8) : AlikeButActions raw raw
  | resigned {signature signature' : Signature} {body body' : List UInt8} {l l' : Contents} :
    Encodes body l → Encodes body' l' →
    ((l.filter fun p ↦ p.1 ≠ LinkTag.actions) = l'.filter fun p ↦ p.1 ≠ LinkTag.actions) →
    (∀ value, (LinkTag.actions, value) ∈ l → WellFormedActions value) →
    (∀ value, (LinkTag.actions, value) ∈ l' → WellFormedActions value) →
      AlikeButActions (signature.toList ++ body) (signature'.toList ++ body')

theorem AlikeButActions.symm {raw raw' : List UInt8} (h : AlikeButActions raw raw') :
    AlikeButActions raw' raw := by
  cases h with
  | same => exact .same raw
  | resigned henc henc' hsame hwell hwell' => exact .resigned henc' henc hsame.symm hwell' hwell

variable (sha ed)

/-- A link carries a valid signature of a key. -/
def SignedLink (key : Digest) (raw : List UInt8) : Prop :=
  ∃ signature body, raw = signature.toList ++ body ∧
    verify ed key (delegationTranscript body) signature = .ok ()

/-- Every link is signed by the holder before it. -/
def CorrectlySigned : Digest → List (List UInt8) → Prop
  | _, [] => True
  | key, raw :: links => SignedLink ed key raw ∧
    ∀ link, decodeDelegation sha ed raw key = .ok link → CorrectlySigned link.childVerify links

variable {sha ed}

/-- Of a signed link only the body is left to read. -/
theorem decodeDelegation_append {signature : Signature} {body : List UInt8} {key : Digest}
    (h : SignedLink ed key (signature.toList ++ body)) :
    decodeDelegation sha ed (signature.toList ++ body) key =
      decodeDelegationBody sha signature body := by
  obtain ⟨signature', body', heq, hverify⟩ := h
  have hsplit := splitSignature_eq_ok_iff.mpr heq
  have hsplit' := splitSignature_eq_ok_iff.mpr (rfl : signature.toList ++ body = _)
  obtain ⟨rfl, rfl⟩ := Prod.mk.inj (Except.ok.inj (hsplit.symm.trans hsplit'))
  rw [decodeDelegation, hsplit, Except.ok_bind]
  show ((verify ed key (delegationTranscript body') signature').mapError _ >>= _) = _
  rw [hverify]
  rfl

/-- A signed link that is read is read with other actions, too. -/
theorem decodeDelegation_alike {raw raw' : List UInt8} {key : Digest} {link : Delegation}
    (halike : AlikeButActions raw raw') (hsigned : SignedLink ed key raw)
    (hsigned' : SignedLink ed key raw') (h : decodeDelegation sha ed raw key = .ok link) :
    ∃ actions signature, decodeDelegation sha ed raw' key =
      .ok { link with actions := actions, signature := signature } := by
  cases halike with
  | same => exact ⟨link.actions, link.signature, h⟩
  | @resigned _ signature' _ _ _ _ henc henc' hsame hwell hwell' =>
    rw [decodeDelegation_append hsigned] at h
    obtain ⟨actions, hactions⟩ := decodeDelegationBody_alike henc henc' hsame hwell hwell' h
    exact ⟨actions, signature', (decodeDelegation_append hsigned').trans hactions⟩

/-- **One link.** Without an action grant its actions are not seen. -/
theorem linkStep_alike {now : Int64} {facts : ChainFacts} {raw raw' : List UInt8}
    (halike : AlikeButActions raw raw') (hsigned : SignedLink ed facts.holderVerify raw)
    (hsigned' : SignedLink ed facts.holderVerify raw') (index : ℕ) :
    linkStep sha ed false now facts (raw, index) =
      linkStep sha ed false now facts (raw', index) := by
  rcases hread : decodeDelegation sha ed raw facts.holderVerify with e | link
  · rcases hread' : decodeDelegation sha ed raw' facts.holderVerify with e' | link'
    · rw [linkStep, linkStep, hread, hread']
      rfl
    · obtain ⟨_, _, hback⟩ := decodeDelegation_alike halike.symm hsigned' hsigned hread'
      rw [hread] at hback
      cases hback
  · obtain ⟨actions, signature, hread'⟩ := decodeDelegation_alike halike hsigned hsigned' hread
    rw [linkStep, linkStep, hread, hread']
    rfl

/-- **A run of links.** -/
theorem foldlM_alike {now : Int64} {links links' : List (List UInt8)}
    (halike : List.Forall₂ AlikeButActions links links') {facts : ChainFacts} (start : ℕ)
    (hsigned : CorrectlySigned sha ed facts.holderVerify links)
    (hsigned' : CorrectlySigned sha ed facts.holderVerify links') :
    (links.zipIdx start).foldlM (linkStep sha ed false now) facts =
      (links'.zipIdx start).foldlM (linkStep sha ed false now) facts := by
  induction halike generalizing facts start with
  | nil => rfl
  | cons hraw hlinks ih =>
    rw [List.zipIdx_cons, List.zipIdx_cons, List.foldlM_cons, List.foldlM_cons,
      linkStep_alike hraw hsigned.1 hsigned'.1]
    rcases hstep : linkStep sha ed false now facts (_, start) with e | facts₁
    · rfl
    · -- the next holder is named by both links
      have hstep' := (linkStep_alike hraw hsigned.1 hsigned'.1 start).trans hstep
      obtain ⟨link', _, hfollows', -, rfl⟩ := linkStep_eq_ok_iff.mp hstep
      obtain ⟨link, _, hfollows, -, hsame⟩ := linkStep_eq_ok_iff.mp hstep'
      have hkey : link'.childVerify = link.childVerify := congrArg ChainFacts.holderVerify hsame
      refine ih (start + 1) ?_ (hsigned'.2 link' hfollows'.decoded)
      show CorrectlySigned sha ed link'.childVerify _
      rw [hkey]
      exact hsigned.2 link hfollows.decoded

/-! ### Chains -/

variable (sha ed) in
/-- **Action rights never influence file rights.** A chain that is accepted with an action grant is
accepted without it and says the same about files; and without an action grant, chains that differ in
the actions of their links are accepted with the same facts or refused for the same reason. -/
theorem actions_never_influence_files (authorKey : Digest) (grant : List UInt8) (now : Int64) :
    (∀ links actions f,
      verifyGrantChainWithActions sha ed authorKey grant links (some actions) now = .ok f →
        verifyGrantChainWithActions sha ed authorKey grant links none now =
          .ok { f with actions := [] }) ∧
      ∀ links links', List.Forall₂ AlikeButActions links links' →
        (∀ signed, decodeGrant sha ed grant authorKey = .ok signed →
          CorrectlySigned sha ed signed.doorVerify links ∧
            CorrectlySigned sha ed signed.doorVerify links') →
        verifyGrantChain sha ed authorKey grant links now =
            verifyGrantChain sha ed authorKey grant links' now ∧
          ∀ f, verifyGrantChain sha ed authorKey grant links now = .ok f → f.actions = [] := by
  refine ⟨?_, ?_⟩
  · intro links actions f h
    obtain ⟨signed, root, hsigned, hissued, hexpires, -, hrun⟩ :=
      verifyGrantChainWithActions_eq_ok_iff.mp h
    exact verifyGrantChainWithActions_eq_ok_iff.mpr
      ⟨signed, [], hsigned, hissued, hexpires, rfl, foldlM_withoutActions hrun⟩
  · intro links links' halike hlinks
    refine ⟨?_, ?_⟩
    -- both runs read the same grant, and fail with it
    · rcases hsigned : decodeGrant sha ed grant authorKey with e | signed
      · rw [verifyGrantChain, verifyGrantChain, verifyGrantChainWithActions,
          verifyGrantChainWithActions, hsigned]
        rfl
      · obtain ⟨hsigned₁, hsigned₂⟩ := hlinks signed hsigned
        have hrun : (links.zipIdx 0).foldlM (linkStep sha ed false now) (rootFacts signed []) =
            (links'.zipIdx 0).foldlM (linkStep sha ed false now) (rootFacts signed []) :=
          foldlM_alike halike 0 hsigned₁ hsigned₂
        simp only [verifyGrantChain, verifyGrantChainWithActions, rootActions, hsigned, Except.ok_bind,
          Except.ok_mapError, Option.isSome_none, hrun]
    · intro f h
      obtain ⟨signed, root, -, -, -, hroot, hrun⟩ := verifyGrantChainWithActions_eq_ok_iff.mp h
      obtain rfl := Except.ok.inj hroot
      exact actions_eq_nil_of_foldlM hrun rfl

/-- The sample link without the tag of actions, signed by the door once more. -/
def plainLink : Delegation where
  __ := sampleLink
  actions := []
  signature :=
    ⟨[0x41, 0x7d, 0x5c, 0x12, 0x3f, 0xac, 0xfb, 0x9a, 0x0c, 0x5b, 0x5c, 0x5f, 0xa7, 0xd4, 0x49, 0x3f,
      0x38, 0x9d, 0xc9, 0x02, 0x4d, 0x67, 0xb5, 0xa6, 0x7f, 0x3e, 0x13, 0xbd, 0xd3, 0x0b, 0xb7, 0x0f,
      0x3e, 0x2d, 0x22, 0xfe, 0x17, 0xd6, 0x1f, 0x9b, 0xe8, 0xe1, 0x81, 0xb5, 0xd0, 0x14, 0x90, 0x79,
      0x29, 0x34, 0xcc, 0x3c, 0x43, 0x92, 0x5a, 0xaa, 0x91, 0x10, 0x85, 0x14, 0x55, 0x7f, 0xcb, 0x03],
      rfl⟩

/-- Ed25519 as far as the signatures of the sample chain and of the plain link go. -/
def resignedEd25519 : Ed25519 where
  VerifyingKey := Digest
  fromBytes := some
  verifyStrict key message signature :=
    chainEd25519.verifyStrict key message signature ||
      decide (key = sampleDoor ∧ signature = plainLink.signature ∧
        (delegationBody sampleSha plainLink).map (fun body ↦ (delegationTranscript body).asBytes) =
          .ok message)

/-- The tags and values that the two links share. -/
def sharedContents : Contents :=
  [(1, List.replicate 16 7), (2, List.replicate 32 9), (3, List.replicate 32 10), (4, [1]),
    (5, List.replicate 32 10), (6, List.replicate 32 11),
    (7, (encodeEntries [sampleEntry]).toOption.getD []), (8, toLeBytes (150 : Int64)), (10, [0])]

/-- The value of the tag of actions of the sample link. -/
def sampleRules : List UInt8 :=
  (Action.encodeRules [removeRule "src/old" 2 false]).toOption.getD []

/-- The body of the sample link. -/
def sampleLinkBody : List UInt8 := (delegationBody sampleSha sampleLink).toOption.getD []

/-- The body of the plain link. -/
def plainLinkBody : List UInt8 := (delegationBody sampleSha plainLink).toOption.getD []

/-- The sample link, with its actions and without them, gives the same rights to files. -/
theorem actions_never_influence_files_plainLink :
    verifyGrantChain sampleSha resignedEd25519 sampleAuthor sampleGrantBytes
        [sampleLink.signature.toList ++ sampleLinkBody] 120 = .ok { sampleFacts with actions := [] } ∧
      verifyGrantChain sampleSha resignedEd25519 sampleAuthor sampleGrantBytes
        [plainLink.signature.toList ++ plainLinkBody] 120 = .ok { sampleFacts with actions := [] } := by
  have hbody : Encodes sampleLinkBody (sharedContents ++ [(LinkTag.actions, sampleRules)]) :=
    TlvWriter.writeAll_eq_ok_iff.mp (by decide +kernel)
  have hplain : Encodes plainLinkBody sharedContents :=
    TlvWriter.writeAll_eq_ok_iff.mp (by decide +kernel)
  have hrules : WellFormedActions sampleRules :=
    ⟨[removeRule "src/old" 2 false], by decide +kernel, by decide, by decide +kernel⟩
  have hnone : ∀ value, (LinkTag.actions, value) ∉ sharedContents := by
    intro value hvalue
    have hmem : LinkTag.actions ∈ sharedContents.map Prod.fst := List.mem_map_of_mem hvalue
    exact absurd hmem (by decide +kernel)
  have halike : AlikeButActions (sampleLink.signature.toList ++ sampleLinkBody)
      (plainLink.signature.toList ++ plainLinkBody) := by
    refine .resigned hbody hplain (by decide +kernel) ?_ ?_
    · intro value hvalue
      rcases List.mem_append.mp hvalue with hvalue | hvalue
      · exact absurd hvalue (hnone value)
      · obtain ⟨-, rfl⟩ := Prod.mk.inj (List.mem_singleton.mp hvalue)
        exact hrules
    · intro value hvalue
      exact absurd hvalue (hnone value)
  have hgrant : (decodeGrant sampleSha resignedEd25519 sampleGrantBytes sampleAuthor).map
      AgentGrant.doorVerify = .ok sampleDoor := by decide +kernel
  have hsigned : ∀ {link : Delegation} {body : List UInt8},
      verify resignedEd25519 sampleDoor (delegationTranscript body) link.signature = .ok () →
        CorrectlySigned sampleSha resignedEd25519 sampleDoor [link.signature.toList ++ body] :=
    fun h ↦ ⟨⟨_, _, rfl, h⟩, fun _ _ ↦ trivial⟩
  obtain ⟨-, hfiles⟩ := actions_never_influence_files sampleSha resignedEd25519 sampleAuthor
    sampleGrantBytes 120
  obtain ⟨heq, -⟩ := hfiles _ _ (.cons halike .nil) fun signed hdecoded ↦ by
    rw [hdecoded] at hgrant
    rw [show signed.doorVerify = sampleDoor from Except.ok.inj hgrant]
    exact ⟨hsigned (by decide +kernel), hsigned (by decide +kernel)⟩
  have hfacts : verifyGrantChain sampleSha resignedEd25519 sampleAuthor sampleGrantBytes
      [sampleLink.signature.toList ++ sampleLinkBody] 120 =
        .ok { sampleFacts with actions := [] } := by
    decide +kernel
  exact ⟨hfacts, heq ▸ hfacts⟩

end OpenCrate.Protocol.Agent
