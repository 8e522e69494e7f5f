import OpenCrate.Policy.Composition
import OpenCrate.Protocol.Attenuation

/-!
# What a delegate opens

The holder of a chain opens a file under a lease whose profile is the server's, merged with everything that the chain
adds. Whoever holds a shorter part of the chain may do it, too: the part is accepted, it names the file, it lives as
long, and of the same lease its profile is merged of fewer policies (`delegate_opens_no_more`). The one thing that a
link can give away is the length of a lease, by asking for the network at every open.
-/

namespace OpenCrate.Protocol.Agent

open OpenCrate.Format OpenCrate.Crypto

section Opens

variable {sha : Sha2} {ed : Ed25519} {authorKey : Digest} {grant : List UInt8} {links shorter : List (List UInt8)}
  {actions : Option (List UInt8)} {now : Int64} {f : ChainFacts}

/-- A shorter part of a chain is accepted, and grants as much. -/
theorem exists_attenuates_of_prefix (hshorter : shorter <+: links)
    (h : verifyGrantChainWithActions sha ed authorKey grant links actions now = .ok f) :
    ∃ g, verifyGrantChainWithActions sha ed authorKey grant shorter actions now = .ok g ∧
      f.Attenuates g (links.length - shorter.length) := by
  obtain ⟨rest, rfl⟩ := hshorter
  obtain ⟨signed, root, hsigned, hissued, hexpires, hroot, hrun⟩ := verifyGrantChainWithActions_eq_ok_iff.mp h
  rw [List.zipIdx_append, List.foldlM_append] at hrun
  obtain ⟨g, hshorter, hrest⟩ := Except.bind_eq_ok_iff.mp hrun
  have hattenuates := ChainFacts.Attenuates.run hrest
  rw [List.length_zipIdx] at hattenuates
  rw [List.length_append, Nat.add_sub_cancel_left]
  exact ⟨g, verifyGrantChainWithActions_eq_ok_iff.mpr ⟨signed, root, hsigned, hissued, hexpires, hroot, hshorter⟩,
    hattenuates⟩

/-- **A delegate opens no more than those before it.** What a file's author and a profile merged of the server's and
everything the chain adds allow the last holder, they allow each earlier one, whose part of the chain is accepted,
names the file and lives as long; with obligations that are no stricter, and exactly unless a later link hid the length
of the lease. -/
theorem delegate_opens_no_more {author server : Policy} {lease : LeaseFacts} {action : OpenCrate.Action}
    {ctx : Context} {o : Obligations} {file : List.Vector UInt8 16} (hshorter : shorter <+: links)
    (h : verifyGrantChainWithActions sha ed authorKey grant links actions now = .ok f) (hfile : file ∈ f.files)
    (hopens : evaluate author (some (lease.under server f.tightening)) action ctx = .allow o) :
    ∃ g, verifyGrantChainWithActions sha ed authorKey grant shorter actions now = .ok g ∧
      file ∈ g.files ∧ f.expiresAt ≤ g.expiresAt ∧
      ((∃ o', evaluate author (some (lease.under server g.tightening)) action ctx = .allow o' ∧
          o.AtLeastAsStrict o') ↔
        ¬HidesLength (author :: server :: g.tightening) (author :: server :: f.tightening) lease) := by
  obtain ⟨g, hg, hattenuates⟩ := exists_attenuates_of_prefix hshorter h
  have hsub : server :: g.tightening ⊆ server :: f.tightening :=
    List.cons_subset_cons server hattenuates.tightening_starts.subset
  exact ⟨g, hg, hattenuates.files_subset hfile, hattenuates.expiresAt_le, more_profiles_widen_iff hsub hopens⟩

/-- What a link can add: a mark on what is shown, and three opens at most. -/
def markedThrice : Policy := { Policy.noTightening with maxOpens := some 3, watermark := true }

/-- The link of the sample chain with that restriction, signed by the door. -/
def markedLink : Delegation :=
  { sampleLink with
    tightening := some markedThrice
    signature :=
      ⟨[0xf5, 0x15, 0x95, 0xb3, 0x96, 0x4a, 0xe1, 0xc8, 0xb5, 0x3b, 0xcf, 0x68, 0x99, 0xa7, 0xbd, 0x45,
        0xf9, 0x7e, 0xc3, 0x0a, 0x1d, 0xe9, 0x04, 0x51, 0x73, 0x54, 0x4b, 0x69, 0xf4, 0x72, 0x1a, 0xf9,
        0x3f, 0xa9, 0x62, 0x8f, 0xec, 0xf1, 0x97, 0x09, 0xe8, 0xbb, 0x9c, 0x19, 0x96, 0x92, 0xf0, 0x15,
        0x88, 0xf0, 0x87, 0x02, 0x1e, 0x4d, 0xaf, 0x2e, 0xc8, 0xd6, 0x01, 0xab, 0xb7, 0xc1, 0xdf, 0x0a], rfl⟩ }

/-- The bytes of that link. -/
def markedLinkBytes : List UInt8 := (encodeDelegation sampleSha markedLink).toOption.getD []

/-- Ed25519 as far as the signatures of that chain go. -/
def markedEd25519 : Ed25519 where
  VerifyingKey := Digest
  fromBytes := some
  verifyStrict key message signature := chainEd25519.verifyStrict key message signature ||
    decide (key = sampleDoor ∧ signature = markedLink.signature ∧
      (delegationBody sampleSha markedLink).map (fun body ↦ (delegationTranscript body).asBytes) = .ok message)

/-- What the chain gives its last holder. -/
def markedFacts : ChainFacts := { sampleFacts with tightening := [markedThrice] }

/-- The last holder of the chain opens the sample file under a lease of an hour, with a mark, and so does the door
before it, whose own opens bear no mark. -/
theorem delegate_opens_no_more_markedChain :
    verifyGrantChainWithActions sampleSha markedEd25519 sampleAuthor sampleGrantBytes [markedLinkBytes]
        (some sampleActionsBytes) 120 = .ok markedFacts ∧
      evaluate hourPolicy (some ((leaseFor 3600).under .noTightening markedFacts.tightening)) .view onlineContext =
        .allow ⟨true, true, true⟩ ∧
      ∃ g, verifyGrantChainWithActions sampleSha markedEd25519 sampleAuthor sampleGrantBytes []
          (some sampleActionsBytes) 120 = .ok g ∧ List.Vector.replicate 16 1 ∈ g.files ∧
        ∃ o, evaluate hourPolicy (some ((leaseFor 3600).under .noTightening g.tightening)) .view onlineContext =
          .allow o ∧ Obligations.AtLeastAsStrict ⟨true, true, true⟩ o := by
  have hchain : verifyGrantChainWithActions sampleSha markedEd25519 sampleAuthor sampleGrantBytes
      [markedLinkBytes] (some sampleActionsBytes) 120 = .ok markedFacts := by decide +kernel
  have hopens : evaluate hourPolicy (some ((leaseFor 3600).under .noTightening markedFacts.tightening)) .view
      onlineContext = .allow ⟨true, true, true⟩ := by decide +kernel
  obtain ⟨g, hg, hfile, -, hwider⟩ :=
    delegate_opens_no_more List.nil_prefix hchain (List.mem_singleton_self _) hopens
  refine ⟨hchain, hopens, g, hg, hfile, hwider.mpr fun hhides ↦ ?_⟩
  -- nobody asks for the network at every open
  obtain ⟨r, hr, hnetwork⟩ := hhides.1
  have hnone : ∀ p ∈ hourPolicy :: .noTightening :: markedFacts.tightening, p.network ≠ .strictOnline := by
    decide +kernel
  exact hnone r hr hnetwork

end Opens

end OpenCrate.Protocol.Agent
