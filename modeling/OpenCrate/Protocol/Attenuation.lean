import OpenCrate.Protocol.Agent

/-!
# Delegation attenuates

The verifier of a chain overwrites its facts at every link. Each link is checked against the facts of
the link before it (`linkStep_eq_ok_iff`), so that the facts of a chain grant no more than those of
any shorter one (`ChainFacts.Attenuates`, an order that counts links), and a rule that is passed on
narrows one of the author's rules, however long the chain is.
-/

namespace OpenCrate.Protocol.Agent

open OpenCrate.Format OpenCrate.Crypto
open Except (refuseIf okOr)

variable {sha : Sha2} {ed : Ed25519}

/-! ### One link -/

/-- Who holds what a grant or a link gives: a name, and the key that signs the next link. -/
structure Holder where
  fpr : Digest
  verifyKey : Digest

/-- The door of a grant. -/
def AgentGrant.holder (grant : AgentGrant) : Holder := ⟨grant.doorFpr, grant.doorVerify⟩

/-- The descendant of a link. -/
def Delegation.holder (link : Delegation) : Holder := ⟨link.childFpr, link.childVerify⟩

/-- The holder of the last link. -/
def ChainFacts.holder (facts : ChainFacts) : Holder := ⟨facts.holderFpr, facts.holderVerify⟩

/-- The facts behind a link. -/
def ChainFacts.follow (facts : ChainFacts) (link : Delegation) (actions : List ActionRule) :
    ChainFacts :=
  { facts with
    holderFpr := link.childFpr
    holderVerify := link.childVerify
    files := link.entries.map Entry.fileId
    expiresAt := link.expiresAt
    tightening := facts.tightening ++ link.tightening.toList
    depthLeft := link.depth
    actions := actions }

variable (sha ed) in
/-- A link follows facts: everything that is checked of it. -/
structure Follows (now : Int64) (facts : ChainFacts) (raw : List UInt8) (link : Delegation) :
    Prop where
  decoded : decodeDelegation sha ed raw facts.holderVerify = .ok link
  grantId_eq : link.grantId = facts.grantId
  parentFpr_eq : link.parentFpr = facts.holderFpr
  depth_lt : link.depth < facts.depthLeft
  files_subset : ∀ entry ∈ link.entries, entry.fileId ∈ facts.files
  expiresAt_le : link.expiresAt ≤ facts.expiresAt
  now_le : now ≤ link.expiresAt

/-- **What one link does**: it follows the facts before it, and overwrites them. -/
theorem linkStep_eq_ok_iff {withActions : Bool} {now : Int64} {facts facts' : ChainFacts}
    {raw : List UInt8} {index : ℕ} :
    linkStep sha ed withActions now facts (raw, index) = .ok facts' ↔
      ∃ link actions, Follows sha ed now facts raw link ∧
        linkActions withActions facts.actions link.actions index = .ok actions ∧
        facts' = facts.follow link actions := by
  have hdepth : ∀ link : Delegation, ¬(facts.depthLeft = 0 ∨ facts.depthLeft ≤ link.depth) ↔
      link.depth < facts.depthLeft := by
    intro link
    rw [not_or, UInt8.not_le]
    refine and_iff_right_of_imp fun hlt hzero ↦ ?_
    rw [hzero] at hlt
    exact absurd hlt UInt8.not_lt_zero
  simp only [linkStep, Except.bind_eq_ok_iff, Except.mapError_eq_ok_iff, Except.refuseIf_eq_ok_iff,
    hdepth]
  constructor
  · rintro ⟨link, hdecoded, -, hparent, -, hlt, -, hfiles, -, hexpires, -, halive, actions, hactions,
      hfacts⟩
    rw [not_or, not_not, not_not] at hparent
    exact ⟨link, actions, ⟨hdecoded, hparent.1, hparent.2, hlt, not_not.mp hfiles,
      not_lt.mp hexpires, not_lt.mp halive⟩, hactions, (Except.ok.inj hfacts).symm⟩
  · rintro ⟨link, actions, h, hactions, rfl⟩
    refine ⟨link, h.decoded, (), ?_, (), h.depth_lt, (), not_not.mpr h.files_subset, (),
      not_lt.mpr h.expiresAt_le, (), not_lt.mpr h.now_le, actions, hactions, rfl⟩
    rw [not_or, not_not, not_not]
    exact ⟨h.grantId_eq, h.parentFpr_eq⟩

/-! ### Whole chains -/

/-- Facts that grant no more than others, after a number of links. -/
structure ChainFacts.Attenuates (f g : ChainFacts) (links : ℕ) : Prop where
  files_subset : f.files ⊆ g.files
  expiresAt_le : f.expiresAt ≤ g.expiresAt
  depthLeft_le : f.depthLeft.toNat + links ≤ g.depthLeft.toNat
  tightening_starts : g.tightening <+: f.tightening
  grantId_eq : f.grantId = g.grantId

namespace ChainFacts.Attenuates

/-- A chain without further links attenuates itself. -/
theorem refl (f : ChainFacts) : f.Attenuates f 0 :=
  ⟨fun _ h ↦ h, le_rfl, le_rfl, List.prefix_rfl, rfl⟩

/-- **Attenuation composes**, and the links add up. -/
theorem trans {f g k : ChainFacts} {m n : ℕ} (h : f.Attenuates g m) (h' : g.Attenuates k n) :
    f.Attenuates k (n + m) where
  files_subset := List.Subset.trans h.files_subset h'.files_subset
  expiresAt_le := h.expiresAt_le.trans h'.expiresAt_le
  depthLeft_le := by
    have := h.depthLeft_le
    have := h'.depthLeft_le
    omega
  tightening_starts := h'.tightening_starts.trans h.tightening_starts
  grantId_eq := h.grantId_eq.trans h'.grantId_eq

/-- One link attenuates. -/
theorem follow {now : Int64} {facts : ChainFacts} {raw : List UInt8} {link : Delegation}
    (h : Follows sha ed now facts raw link) (actions : List ActionRule) :
    (facts.follow link actions).Attenuates facts 1 where
  files_subset := by
    intro file hfile
    obtain ⟨entry, hentry, rfl⟩ := List.mem_map.mp hfile
    exact h.files_subset entry hentry
  expiresAt_le := h.expiresAt_le
  depthLeft_le := h.depth_lt
  tightening_starts := List.prefix_append _ _
  grantId_eq := rfl

/-- A run of links attenuates. -/
theorem run {withActions : Bool} {now : Int64} {links : List (List UInt8 × ℕ)}
    {facts facts' : ChainFacts}
    (h : links.foldlM (linkStep sha ed withActions now) facts = .ok facts') :
    facts'.Attenuates facts links.length := by
  -- by induction on the links: a step attenuates, and attenuation is transitive
  induction links generalizing facts with
  | nil =>
    obtain rfl := Except.ok.inj h
    exact refl facts
  | cons raw links ih =>
    rw [List.foldlM_cons] at h
    obtain ⟨facts₁, hstep, hrest⟩ := Except.bind_eq_ok_iff.mp h
    obtain ⟨link, actions, hfollows, -, rfl⟩ := linkStep_eq_ok_iff.mp hstep
    have htrans := (ih hrest).trans (follow hfollows actions)
    rwa [Nat.add_comm] at htrans

end ChainFacts.Attenuates

/-- The facts of a chain are alive: at the start by the check of the grant, then by that of the link. -/
theorem now_le_of_foldlM {withActions : Bool} {now : Int64} {links : List (List UInt8 × ℕ)}
    {facts facts' : ChainFacts}
    (h : links.foldlM (linkStep sha ed withActions now) facts = .ok facts')
    (hnow : now ≤ facts.expiresAt) : now ≤ facts'.expiresAt := by
  have hstep : ∀ link ∈ links, ∀ {c c' : ChainFacts}, now ≤ c.expiresAt →
      linkStep sha ed withActions now c link = .ok c' → now ≤ c'.expiresAt := by
    intro link _ c c' _ hlink
    obtain ⟨_, _, hfollows, -, rfl⟩ := linkStep_eq_ok_iff.mp hlink
    exact hfollows.now_le
  have hinv := Except.foldlM_invariant (P := fun facts ↦ now ≤ facts.expiresAt) h
  exact hinv hnow hstep

variable (sha ed) in
/-- A link is issued by a holder: its signature is valid under the holder's key, before anything of
it is read, and it names the holder as its parent. -/
structure IssuedBy (raw : List UInt8) (link : Delegation) (parent : Holder) : Prop where
  signed : ∃ signature body, splitSignature raw = .ok (signature, body) ∧
    verify ed parent.verifyKey (delegationTranscript body) signature = .ok () ∧
    decodeDelegationBody sha signature body = .ok link
  parentFpr_eq : link.parentFpr = parent.fpr

/-- A link that was accepted was issued by the holder before it. -/
theorem IssuedBy.of_follows {now : Int64} {facts : ChainFacts} {raw : List UInt8}
    {link : Delegation} (h : Follows sha ed now facts raw link) :
    IssuedBy sha ed raw link facts.holder := by
  refine ⟨?_, h.parentFpr_eq⟩
  have hdecoded := h.decoded
  simp only [decodeDelegation, Except.bind_eq_ok_iff, Except.mapError_eq_ok_iff] at hdecoded
  obtain ⟨⟨signature, body⟩, hsplit, ⟨⟩, hverify, hbody⟩ := hdecoded
  exact ⟨signature, body, hsplit, hverify, hbody⟩

/-- **Every link of a chain is issued by the holder before it.** -/
theorem exists_issued_of_foldlM {withActions : Bool} {now : Int64}
    {links : List (List UInt8 × ℕ)} {facts facts' : ChainFacts}
    (h : links.foldlM (linkStep sha ed withActions now) facts = .ok facts') :
    ∃ decoded : List Delegation, decoded.length = links.length ∧
      ∀ (i : ℕ) (raw : List UInt8) (link : Delegation) (parent : Holder),
        (links.map Prod.fst)[i]? = some raw → decoded[i]? = some link →
        (facts.holder :: decoded.map Delegation.holder)[i]? = some parent →
          IssuedBy sha ed raw link parent := by
  -- by induction on the links; the holder that one step leaves behind issues the next link
  induction links generalizing facts with
  | nil => exact ⟨[], rfl, fun i raw link parent hraw ↦ by simp at hraw⟩
  | cons first links ih =>
    rw [List.foldlM_cons] at h
    obtain ⟨facts₁, hstep, hrest⟩ := Except.bind_eq_ok_iff.mp h
    obtain ⟨link, actions, hfollows, -, rfl⟩ := linkStep_eq_ok_iff.mp hstep
    obtain ⟨decoded, hlen, hissued⟩ := ih hrest
    refine ⟨link :: decoded, by rw [List.length_cons, List.length_cons, hlen], ?_⟩
    intro i raw link' parent hraw hlink hparent
    -- the first link is issued by the holder at the start
    rcases i with - | i
    · obtain rfl := Option.some_inj.mp hraw
      obtain rfl := Option.some_inj.mp hlink
      obtain rfl := Option.some_inj.mp hparent
      exact IssuedBy.of_follows hfollows
    · exact hissued i raw link' parent hraw hlink hparent

section Chain

variable {authorKey : Digest} {grant : List UInt8} {links : List (List UInt8)}
  {actions : Option (List UInt8)} {now : Int64} {f : ChainFacts}

/-- **When a chain is accepted.** -/
theorem verifyGrantChainWithActions_eq_ok_iff :
    verifyGrantChainWithActions sha ed authorKey grant links actions now = .ok f ↔
      ∃ signed root, decodeGrant sha ed grant authorKey = .ok signed ∧ signed.issuedAt ≤ now ∧
        now ≤ signed.expiresAt ∧ rootActions ed signed authorKey actions now = .ok root ∧
        links.zipIdx.foldlM (linkStep sha ed actions.isSome now) (rootFacts signed root) = .ok f := by
  simp only [verifyGrantChainWithActions, Except.bind_eq_ok_iff, Except.mapError_eq_ok_iff,
    Except.refuseIf_eq_ok_iff, not_lt]
  constructor
  · rintro ⟨signed, hsigned, -, hissued, -, hexpires, root, hroot, hrun⟩
    exact ⟨signed, root, hsigned, hissued, hexpires, hroot, hrun⟩
  · rintro ⟨signed, root, hsigned, hissued, hexpires, hroot, hrun⟩
    exact ⟨signed, hsigned, (), hissued, (), hexpires, root, hroot, hrun⟩

/-- No grant allows a longer chain than the format. -/
theorem maxDepth_le_of_decodeGrant {signed : AgentGrant}
    (h : decodeGrant sha ed grant authorKey = .ok signed) : signed.maxDepth ≤ maxGrantDepth := by
  simp only [decodeGrant, Except.bind_eq_ok_iff] at h
  obtain ⟨⟨signature, body⟩, -, -, -, signed', hbody, -, -, hsigned⟩ := h
  obtain rfl := Except.ok.inj hsigned
  simp only [decodeGrantBody, Except.bind_eq_ok_iff] at hbody
  obtain ⟨_, -, _, -, _, -, _, -, _, -, _, -, _, -, _, -, _, -, _, -, _, -, _, hshape, hsigned⟩ :=
    hbody
  obtain rfl := Except.ok.inj hsigned
  obtain ⟨-, hshape⟩ := Except.check_bind_eq_ok_iff.mp hshape
  obtain ⟨-, hshape⟩ := Except.check_bind_eq_ok_iff.mp hshape
  obtain ⟨hdepth, -⟩ := Except.check_bind_eq_ok_iff.mp hshape
  exact UInt8.not_lt.mp (Except.refuseIf_eq_ok_iff.mp hdepth)

/-- **Delegation only attenuates.** Every shorter chain is accepted too, and its facts grant at least
as much; every link is issued by the holder before it; and the depth of the grant bounds the links
together with what is left. -/
theorem delegation_only_attenuates
    (h : verifyGrantChainWithActions sha ed authorKey grant links actions now = .ok f) :
    ∃ signed, decodeGrant sha ed grant authorKey = .ok signed ∧ now ≤ f.expiresAt ∧
      (∀ shorter, shorter <+: links → ∃ g,
        verifyGrantChainWithActions sha ed authorKey grant shorter actions now = .ok g ∧
        f.files ⊆ g.files ∧ f.expiresAt ≤ g.expiresAt ∧
        f.depthLeft.toNat + (links.length - shorter.length) ≤ g.depthLeft.toNat ∧
        g.tightening <+: f.tightening ∧ f.grantId = g.grantId) ∧
      (∃ decoded : List Delegation, decoded.length = links.length ∧
        ∀ (i : ℕ) (raw : List UInt8) (link : Delegation) (parent : Holder),
          links[i]? = some raw → decoded[i]? = some link →
          (signed.holder :: decoded.map Delegation.holder)[i]? = some parent →
            IssuedBy sha ed raw link parent) ∧
      links.length + f.depthLeft.toNat ≤ signed.maxDepth.toNat ∧
      signed.maxDepth ≤ maxGrantDepth := by
  obtain ⟨signed, root, hsigned, hissued, hexpires, hroot, hrun⟩ :=
    verifyGrantChainWithActions_eq_ok_iff.mp h
  refine ⟨signed, hsigned, now_le_of_foldlM hrun hexpires, ?_, ?_, ?_,
    maxDepth_le_of_decodeGrant hsigned⟩
  -- the run over the longer chain starts with the run over the shorter one
  · rintro shorter ⟨rest, rfl⟩
    rw [List.zipIdx_append, List.foldlM_append] at hrun
    obtain ⟨g, hshorter, hrest⟩ := Except.bind_eq_ok_iff.mp hrun
    have hatt := ChainFacts.Attenuates.run hrest
    refine ⟨g, verifyGrantChainWithActions_eq_ok_iff.mpr
      ⟨signed, root, hsigned, hissued, hexpires, hroot, hshorter⟩, hatt.files_subset,
      hatt.expiresAt_le, ?_, hatt.tightening_starts, hatt.grantId_eq⟩
    rw [List.length_append, Nat.add_sub_cancel_left]
    simpa using hatt.depthLeft_le
  · obtain ⟨decoded, hlen, hdecoded⟩ := exists_issued_of_foldlM hrun
    rw [List.length_zipIdx] at hlen
    rw [List.zipIdx_map_fst] at hdecoded
    exact ⟨decoded, hlen, hdecoded⟩
  · have hatt := (ChainFacts.Attenuates.run hrun).depthLeft_le
    rw [List.length_zipIdx, Nat.add_comm] at hatt
    exact hatt

/-- The key of the sample author. -/
def sampleAuthor : Digest := samplePublicKey

/-- The signing key of the sample door. -/
def sampleDoor : Digest :=
  ⟨[0xe7, 0x2c, 0x28, 0xfe, 0x71, 0x8e, 0x3a, 0x30, 0xaf, 0xc4, 0x74, 0x38, 0xda, 0x77, 0x9d, 0x50,
    0x8d, 0x2d, 0xad, 0x5a, 0x26, 0x5f, 0xaf, 0xeb, 0x4f, 0x37, 0x7e, 0x1d, 0x57, 0xfb, 0x09, 0x8c],
    rfl⟩

/-- One file, with an empty share. -/
def sampleEntry : Entry := ⟨List.Vector.replicate 16 1, ⟨[], List.Vector.replicate 24 0, []⟩⟩

/-- A grant of one file that allows one link, signed by the author. -/
def sampleGrant : AgentGrant where
  grantId := List.Vector.replicate 16 7
  doorFpr := List.Vector.replicate 32 9
  doorKem := 1
  doorPublic := List.replicate 32 9
  doorVerify := sampleDoor
  entries := [sampleEntry]
  issuedAt := 100
  expiresAt := 200
  tightening := none
  maxDepth := 1
  authorKey := sampleAuthor
  signature :=
    ⟨[0x6a, 0x34, 0xbb, 0x2f, 0xb2, 0x98, 0x25, 0x4e, 0xbc, 0xf6, 0x06, 0xf0, 0x23, 0xa7, 0x8a, 0xfb,
      0x18, 0x7f, 0x98, 0x21, 0x42, 0x2d, 0xa1, 0xa4, 0x5c, 0x6b, 0x17, 0x79, 0x81, 0x24, 0x3c, 0x04,
      0xb9, 0x17, 0xf3, 0x67, 0x67, 0x3f, 0x6c, 0x5d, 0xd8, 0x31, 0xf1, 0xd8, 0xbb, 0xfb, 0x4c, 0xc3,
      0x39, 0xb4, 0x03, 0xaf, 0x40, 0x0e, 0x67, 0x52, 0x40, 0x33, 0xb9, 0x1a, 0xf2, 0xdc, 0xfc, 0x0f],
      rfl⟩

/-- The deletion of files below a directory, for a number of executions. -/
def removeRule (directory : String) (maxUses : UInt32) (delegable : Bool) : ActionRule :=
  ⟨.treeRemove, .treeRemove directory, maxUses, false, delegable⟩

/-- An action grant with one delegable rule, signed by the author. -/
def sampleActions : ActionGrant where
  grantId := List.Vector.replicate 16 7
  rules := [removeRule "src" 3 true]
  issuedAt := 100
  expiresAt := 200
  authorKey := sampleAuthor
  signature :=
    ⟨[0x72, 0x05, 0x7f, 0xbf, 0xbc, 0x23, 0xe2, 0x0c, 0xae, 0x6e, 0x23, 0x7f, 0x4c, 0xac, 0x85, 0x62,
      0x52, 0x9a, 0xc4, 0xd0, 0x37, 0x7b, 0xd5, 0x98, 0x7a, 0x61, 0x5f, 0x7b, 0x3a, 0xf5, 0x71, 0xcd,
      0x53, 0xa1, 0xf0, 0x01, 0x3b, 0x66, 0x45, 0xfb, 0xcc, 0x96, 0x61, 0x39, 0xe9, 0xbf, 0x14, 0xb3,
      0x8a, 0x9c, 0x65, 0x70, 0x8e, 0x53, 0x2a, 0xa6, 0x35, 0xcc, 0x3c, 0xa6, 0x4b, 0x1d, 0xe5, 0x04],
      rfl⟩

/-- A link that passes on the file and a narrower rule, signed by the door. -/
def sampleLink : Delegation where
  grantId := List.Vector.replicate 16 7
  parentFpr := List.Vector.replicate 32 9
  childFpr := List.Vector.replicate 32 10
  childKem := 1
  childPublic := List.replicate 32 10
  childVerify := List.Vector.replicate 32 11
  entries := [sampleEntry]
  expiresAt := 150
  tightening := none
  depth := 0
  actions := [removeRule "src/old" 2 false]
  signature :=
    ⟨[0x5b, 0x28, 0x95, 0x24, 0x2d, 0xa2, 0x9d, 0x0f, 0x78, 0x0f, 0x66, 0xce, 0xe2, 0xbe, 0xd3, 0x97,
      0x9b, 0x98, 0x72, 0x2d, 0x1a, 0xab, 0xa9, 0xd4, 0xe1, 0xef, 0xc4, 0x7f, 0x66, 0x74, 0xc6, 0x08,
      0x41, 0x21, 0x1e, 0x14, 0x65, 0x3f, 0x4c, 0xcb, 0xee, 0xb8, 0xf1, 0x41, 0x1e, 0xd9, 0xb3, 0x06,
      0x44, 0xfb, 0xca, 0xef, 0xe9, 0x5b, 0x03, 0x8a, 0xf0, 0x90, 0x66, 0x41, 0xcd, 0x7d, 0x08, 0x06],
      rfl⟩

/-- No function of SHA-256 is asked for an X25519 key. -/
def sampleSha : Sha2 :=
  ⟨fun _ ↦ List.Vector.replicate 32 0, fun _ _ ↦ List.Vector.replicate 32 0,
    fun _ _ _ n ↦ List.Vector.replicate n 0⟩

/-- Ed25519 as far as the three sample signatures go. -/
def chainEd25519 : Ed25519 where
  VerifyingKey := Digest
  fromBytes := some
  verifyStrict key message signature := decide (
    key = sampleAuthor ∧ signature = sampleGrant.signature ∧
        (grantBody sampleSha sampleGrant).map (fun body ↦ (grantTranscript body).asBytes) =
          .ok message ∨
      key = sampleAuthor ∧ signature = sampleActions.signature ∧
        (Action.grantBody sampleActions).map (fun body ↦ (Action.grantTranscript body).asBytes) =
          .ok message ∨
      key = sampleDoor ∧ signature = sampleLink.signature ∧
        (delegationBody sampleSha sampleLink).map (fun body ↦ (delegationTranscript body).asBytes) =
          .ok message)

/-- The bytes of the sample grant. -/
def sampleGrantBytes : List UInt8 := (encodeGrant sampleSha sampleGrant).toOption.getD []

/-- The bytes of the sample action grant. -/
def sampleActionsBytes : List UInt8 := (Action.encodeGrant sampleActions).toOption.getD []

/-- The bytes of the sample link. -/
def sampleLinkBytes : List UInt8 := (encodeDelegation sampleSha sampleLink).toOption.getD []

/-- What the sample chain gives its last holder. -/
def sampleFacts : ChainFacts where
  grantId := List.Vector.replicate 16 7
  holderFpr := List.Vector.replicate 32 10
  holderVerify := List.Vector.replicate 32 11
  files := [List.Vector.replicate 16 1]
  expiresAt := 150
  tightening := []
  depthLeft := 0
  actions := [removeRule "src/old" 2 false]

/-- The sample chain is accepted. -/
theorem verify_sampleChain :
    verifyGrantChainWithActions sampleSha chainEd25519 sampleAuthor sampleGrantBytes
      [sampleLinkBytes] (some sampleActionsBytes) 120 = .ok sampleFacts := by
  decide +kernel

/-- The sample chain attenuates the sample grant. -/
theorem delegation_only_attenuates_sampleChain :
    verifyGrantChainWithActions sampleSha chainEd25519 sampleAuthor sampleGrantBytes
        [sampleLinkBytes] (some sampleActionsBytes) 120 = .ok sampleFacts ∧
      ∃ g, verifyGrantChainWithActions sampleSha chainEd25519 sampleAuthor sampleGrantBytes []
          (some sampleActionsBytes) 120 = .ok g ∧
        sampleFacts.files ⊆ g.files ∧ sampleFacts.depthLeft.toNat + 1 ≤ g.depthLeft.toNat := by
  refine ⟨verify_sampleChain, ?_⟩
  obtain ⟨_, -, -, hshorter, -⟩ := delegation_only_attenuates verify_sampleChain
  obtain ⟨g, hg, hfiles, -, hdepth, -⟩ := hshorter [] List.nil_prefix
  exact ⟨g, hg, hfiles, hdepth⟩

/-! ### Actions -/

/-- A rule that narrows a rule that narrows a third one narrows the third one. -/
theorem narrower_trans {a b c : ActionRule} (h : narrower a b = .ok ())
    (h' : narrower b c = .ok ()) : narrower a c = .ok () := by
  rw [narrower_eq_ok_iff] at *
  obtain ⟨hkind, -, -, huses, hnarrows⟩ := h
  obtain ⟨hkind', hconfirm, hdelegable, huses', hnarrows'⟩ := h'
  exact ⟨hkind.trans hkind', hconfirm, hdelegable, usesWithin_trans huses huses',
    hnarrows.trans hnarrows'⟩

/-- **Every rule of a link is narrower than a rule above it.** -/
theorem exists_narrower_of_narrowActions {parents children children' : List ActionRule} {index : ℕ}
    (h : narrowActions parents children index = .ok children') :
    ∀ child ∈ children', ∃ parent ∈ parents, narrower child parent = .ok () := by
  obtain ⟨hall, hsame⟩ := Except.check_bind_eq_ok_iff.mp h
  obtain rfl := Except.ok.inj hsame
  intro child hchild
  have hone := Except.forM_eq_ok_iff.mp hall child hchild
  obtain ⟨-, hone⟩ := Except.check_bind_eq_ok_iff.mp hone
  obtain ⟨parent, hparent, hnarrower⟩ := not_not.mp (Except.refuseIf_eq_ok_iff.mp hone)
  exact ⟨parent, List.mem_of_mem_filter hparent, hnarrower⟩

/-- **Every rule of a chain with a link narrows a rule of the root.** -/
theorem exists_narrower_of_foldlM {links : List (List UInt8 × ℕ)} {facts facts' : ChainFacts}
    (hne : links ≠ []) (h : links.foldlM (linkStep sha ed true now) facts = .ok facts') :
    ∀ rule ∈ facts'.actions, ∃ root ∈ facts.actions, narrower rule root = .ok () := by
  induction links generalizing facts with
  | nil => exact absurd rfl hne
  | cons first links ih =>
    rw [List.foldlM_cons] at h
    obtain ⟨facts₁, hstep, hrest⟩ := Except.bind_eq_ok_iff.mp h
    obtain ⟨link, actions, hfollows, hactions, rfl⟩ := linkStep_eq_ok_iff.mp hstep
    have hfirst := exists_narrower_of_narrowActions hactions
    intro rule hrule
    rcases links with - | ⟨second, links⟩
    · obtain rfl := Except.ok.inj hrest
      exact hfirst rule hrule
    · obtain ⟨mid, hmid, hnarrower⟩ := ih (List.cons_ne_nil _ _) hrest rule hrule
      obtain ⟨root, hroot, hnarrower'⟩ := hfirst mid hmid
      exact ⟨root, hroot, narrower_trans hnarrower hnarrower'⟩

/-- The rules of the root are those of the grant of actions. -/
theorem exists_of_rootActions {signed : AgentGrant} {bytes : List UInt8} {root : List ActionRule}
    (h : rootActions ed signed authorKey (some bytes) now = .ok root) :
    ∃ granted, Action.decodeGrant ed bytes authorKey = .ok granted ∧ granted.rules = root := by
  simp only [rootActions, Except.bind_eq_ok_iff, Except.mapError_eq_ok_iff] at h
  obtain ⟨granted, hgranted, -, -, -, -, -, -, -, -, hroot⟩ := h
  exact ⟨granted, hgranted, Except.ok.inj hroot⟩

/-- **Delegated actions stay within what the author granted.** -/
theorem delegated_actions_stay_within {bytes : List UInt8}
    (h : verifyGrantChainWithActions sha ed authorKey grant links (some bytes) now = .ok f) :
    ∃ granted, Action.decodeGrant ed bytes authorKey = .ok granted ∧
      ∀ r ∈ f.actions, ∀ a, argsWithin r a = .ok () → ∃ p ∈ granted.rules,
        p.kind = r.kind ∧ argsWithin p a = .ok () ∧
        (links ≠ [] → p.delegable = true ∧ p.confirm = false ∧
          (p.maxUses = 0 ∨ r.maxUses ≠ 0 ∧ r.maxUses ≤ p.maxUses) ∧
          (r.kind = .httpRequest →
            r.constraint.secretRef = none ∨ r.constraint.secretRef = p.constraint.secretRef)) := by
  obtain ⟨signed, root, hsigned, -, -, hroot, hrun⟩ := verifyGrantChainWithActions_eq_ok_iff.mp h
  obtain ⟨granted, hgranted, rfl⟩ := exists_of_rootActions hroot
  refine ⟨granted, hgranted, ?_⟩
  intro r hr a hargs
  by_cases hlinks : links = []
  · subst hlinks
    obtain rfl := Except.ok.inj hrun
    exact ⟨r, hr, rfl, hargs, fun hne ↦ absurd rfl hne⟩
  · have hne' : links.zipIdx ≠ [] := by simpa using hlinks
    obtain ⟨p, hp, hnarrower⟩ := exists_narrower_of_foldlM hne' hrun r hr
    have hshape := Action.checkRuleShape_of_decodeGrant hgranted p hp
    obtain ⟨hkind, hconfirm, hdelegable, huses, hnarrows⟩ := narrower_eq_ok_iff.mp hnarrower
    refine ⟨p, hp, hkind.symm, argsWithin_of_narrows hkind hnarrows hshape hargs, ?_⟩
    intro _
    exact ⟨hdelegable, hconfirm, usesWithin_eq_true_iff.mp huses, fun _ ↦ hnarrows.secretRef_eq⟩

/-- A deletion within the rule of the sample link lies within the rule of the sample author. -/
theorem delegated_actions_stay_within_sampleChain :
    argsWithin (removeRule "src/old" 2 false) (.treeRemove "src/old/a.rs") = .ok () ∧
      ∃ granted, Action.decodeGrant chainEd25519 sampleActionsBytes sampleAuthor = .ok granted ∧
        ∃ p ∈ granted.rules, argsWithin p (.treeRemove "src/old/a.rs") = .ok () ∧
          p.delegable = true := by
  have hwithin : argsWithin (removeRule "src/old" 2 false) (.treeRemove "src/old/a.rs") = .ok () := by
    decide +kernel
  obtain ⟨granted, hgranted, hall⟩ := delegated_actions_stay_within verify_sampleChain
  obtain ⟨p, hp, -, hargs, hlinked⟩ := hall _ (List.mem_singleton_self _) _ hwithin
  exact ⟨hwithin, granted, hgranted, p, hp, hargs, (hlinked (List.cons_ne_nil _ _)).1⟩

end Chain

end OpenCrate.Protocol.Agent
