import OpenCrate.Protocol.ActionDocuments
import OpenCrate.Protocol.ChainDelivery
import OpenCrate.Protocol.OrderRoundTrip
import OpenCrate.Protocol.StandingRoundTrip

/-!
# Streams on the wire

The queues of `access` and `action`, and the law that every parser of a stream in `oc-protocol` obeys: two
queues, chains, bequests, proposals, the lists of attribute rules, and pages of the key directory. They
differ in how many records they take, in when they count them, and in what they ask of a record
(`streams_parse_exactly`).
-/

namespace OpenCrate.Protocol

open OpenCrate.Format OpenCrate.Crypto
open Except (refuseIf okOr)

/-! ### Queues -/

namespace Access

/-- How many requests a queue shows at once. -/
def maxPendingPerFile : ℕ := 16

/-- Why a queue was not parsed. -/
inductive QueueError where
  /-- The body ended within an entry. -/
  | torn (what : String)
  /-- The entry was extracted but cannot be parsed. -/
  | record (why : FormatError)
  /-- More entries than the window. -/
  | tooMany
  deriving DecidableEq

/-- Parse a queue of entries, each behind its length. -/
def splitQueue (rest : List UInt8) : Except QueueError (List Pending) :=
  unframeRecords (.torn "очередь оборвана на длине записи")
    (.torn "запись очереди короче объявленной длины") .tooMany
    (fun body ↦ (decodePending body).mapError .record) maxPendingPerFile rest []

end Access

namespace Action

open Access (QueueError)

/-- How many requests on actions a queue shows at once. -/
def maxPendingActionWindow : ℕ := 16

/-- Parse a queue of requests on actions, each behind its length. -/
def splitActionQueue (rest : List UInt8) : Except QueueError (List PendingAction) :=
  unframeRecords (.torn "очередь действий оборвана на длине записи")
    (.torn "запись очереди действий короче объявленной длины") .tooMany
    (fun body ↦ (decodePending body).mapError .record) maxPendingActionWindow rest []

end Action

/-! ### The law of each parser -/

/-- The queue of a file: its records are requests that wait, and each of them is read. -/
theorem readsRecords_splitQueue :
    ReadsRecords Access.splitQueue (· ≤ Access.maxPendingPerFile)
      fun record pending ↦ Access.decodePending record = .ok pending := by
  have h := readsRecords_unframeRecords (.torn "очередь оборвана на длине записи")
    (.torn "запись очереди короче объявленной длины") .tooMany
    (fun body ↦ (Access.decodePending body).mapError Access.QueueError.record) Access.maxPendingPerFile
  simp only [Except.mapError_eq_ok_iff] at h
  exact h

/-- The queue of actions is the same with another bound. -/
theorem readsRecords_splitActionQueue :
    ReadsRecords Action.splitActionQueue (· ≤ Action.maxPendingActionWindow)
      fun record pending ↦ Action.decodePending record = .ok pending := by
  have h := readsRecords_unframeRecords (.torn "очередь действий оборвана на длине записи")
    (.torn "запись очереди действий короче объявленной длины") .tooMany
    (fun body ↦ (Action.decodePending body).mapError Access.QueueError.record)
    Action.maxPendingActionWindow
  simp only [Except.mapError_eq_ok_iff] at h
  exact h

/-- A chain has at least one document, and every one is measured but not read: it is signed, and opaque here. -/
theorem readsRecords_splitChain :
    ReadsRecords Activation.splitChain (fun count ↦ 1 ≤ count ∧ count ≤ Activation.maxChainDocuments)
      fun record document ↦
        (record ≠ [] ∧ record.length ≤ Activation.maxDocument) ∧ record = document := by
  refine .of_good fun bytes records ↦ ?_
  rw [Activation.splitChain_eq_ok_iff]
  constructor
  · intro h
    exact ⟨h.2, ⟨List.length_pos_iff.mpr h.1.some_, h.1.room⟩, h.1.sized⟩
  · intro h
    obtain ⟨hstream, ⟨hsome, hroom⟩, hsized⟩ := h
    exact ⟨⟨List.length_pos_iff.mp hsome, hroom, hsized⟩, hstream⟩

/-- The bequests are bytes of a fixed number of keys, and nothing is asked of them. -/
theorem readsRecords_splitBequests :
    ReadsRecords Order.splitBequests (· ≤ Order.maxHeirs) (· = ·) :=
  .of_items fun _ _ ↦ unframe_nil_eq_ok_iff

/-- Every list of texts is a stream with a bound of its own. -/
theorem readsRecords_unstream (at_ : UInt16) (limit : ℕ) :
    ReadsRecords (fun bytes ↦ AttributeRule.unstream at_ bytes limit) (· ≤ limit) (· = ·) :=
  .of_items fun _ _ ↦ unframe_nil_eq_ok_iff

/-- A proposal is read from the record it is written as. -/
theorem readsRecords_splitProposals :
    ReadsRecords (fun bytes ↦ Standing.splitProposals bytes []) (fun _ ↦ True)
      fun record proposal ↦ Standing.decodeProposal record = .ok proposal := by
  refine .of_eq_ok_iff fun bytes out ↦ ?_
  have hforall (records : List (List UInt8)) :
      List.Forall₂ (fun record p ↦ Standing.decodeProposal record = .ok p) records out ↔
        (∀ p ∈ out, p.signers.length < 2 ^ 8) ∧ records = out.map Standing.proposalBytes := by
    have hflip : List.Forall₂ (fun record p ↦ Standing.decodeProposal record = .ok p) records out ↔
        List.Forall₂ (fun p record ↦ p.signers.length < 2 ^ 8 ∧ Standing.proposalBytes p = record)
          out records := by
      simp only [eq_comm (a := Standing.proposalBytes _), ← Standing.decodeProposal_eq_ok_iff]
      exact ⟨List.Forall₂.flip, List.Forall₂.flip⟩
    rw [hflip, List.forall₂_and_left, ← List.forall₂_map_left_iff, List.forall₂_eq_eq_eq,
      eq_comm (a := records)]
  simp only [Standing.splitProposals_eq_ok_iff, List.nil_append, exists_eq_left', hforall, true_and]
  constructor
  · intro h
    obtain ⟨hfits, hbytes⟩ := h
    refine ⟨_, ⟨?_, hbytes⟩, fun p hp ↦ (hfits p hp).signers, rfl⟩
    rw [List.forall_mem_map]
    exact fun p hp ↦ (hfits p hp).record
  · intro h
    obtain ⟨_, ⟨hfits, hbytes⟩, hsigners, rfl⟩ := h
    rw [List.forall_mem_map] at hfits
    exact ⟨fun p hp ↦ ⟨hsigners p hp, hfits p hp⟩, hbytes⟩

/-- The records of a page are read to check them, and handed on as they were. -/
theorem readsRecords_decodePage (sha : Sha2) :
    ReadsRecords (Directory.decodePage sha) (· ≤ Directory.maxPage) fun record out ↦
      (∃ parsed, Directory.Record.decode sha record = .ok parsed) ∧ record = out := by
  refine .of_good fun bytes records ↦ ?_
  rw [Directory.decodePage_eq_ok_iff, Directory.encodePage_eq_ok_iff]
  constructor
  · intro h
    obtain ⟨hrecords, hroom, -, hbytes⟩ := h
    exact ⟨⟨fun record hrecord ↦ Directory.IsRecord.length_lt (hrecords record hrecord), hbytes⟩, hroom,
      hrecords⟩
  · intro h
    obtain ⟨hstream, hroom, hrecords⟩ := h
    exact ⟨hrecords, hroom, fun record hrecord ↦ Directory.IsRecord.fits (hrecords record hrecord),
      hstream.eq_frames⟩

/-- **Streams parse exactly.** Each parser accepts the streams of records that it has room for and that meet
its condition, returns what they say, and refuses bytes that are left over. -/
theorem streams_parse_exactly (sha : Sha2) :
    ReadsRecords Access.splitQueue (· ≤ Access.maxPendingPerFile)
        (fun record pending ↦ Access.decodePending record = .ok pending) ∧
      ReadsRecords Action.splitActionQueue (· ≤ Action.maxPendingActionWindow)
        (fun record pending ↦ Action.decodePending record = .ok pending) ∧
      ReadsRecords Activation.splitChain (fun count ↦ 1 ≤ count ∧ count ≤ Activation.maxChainDocuments)
        (fun record document ↦
          (record ≠ [] ∧ record.length ≤ Activation.maxDocument) ∧ record = document) ∧
      ReadsRecords Order.splitBequests (· ≤ Order.maxHeirs) (· = ·) ∧
      ReadsRecords (fun bytes ↦ Standing.splitProposals bytes []) (fun _ ↦ True)
        (fun record proposal ↦ Standing.decodeProposal record = .ok proposal) ∧
      (∀ at_ limit, ReadsRecords (fun bytes ↦ AttributeRule.unstream at_ bytes limit) (· ≤ limit) (· = ·)) ∧
      ReadsRecords (Directory.decodePage sha) (· ≤ Directory.maxPage) (fun record out ↦
        (∃ parsed, Directory.Record.decode sha record = .ok parsed) ∧ record = out) :=
  ⟨readsRecords_splitQueue, readsRecords_splitActionQueue, readsRecords_splitChain,
    readsRecords_splitBequests, readsRecords_splitProposals, readsRecords_unstream,
    readsRecords_decodePage sha⟩

end OpenCrate.Protocol
