import OpenCrate.Format.TlvCodec
import OpenCrate.Policy.Basic
import Mathlib.Data.Finset.Card

/-!
# Policy encoding

`policy_codec` of `oc-format`: encoding and decoding of a policy for a container version, with
deny-by-default semantics. An action this client does not know is kept in `unknownActions` and is
written again, as a denial; requirements of single actions exist from version 4 on.

A decoded policy is in normal form (`IsNormal`): it names no explicit denial and no requirement that
requires nothing. In normal form decoding inverts encoding (`decode_encode`).
-/

namespace OpenCrate.Format.PolicyCodec

open Except (refuseIf okOr)

/-! ### Tags and numbers -/

namespace Tag

/-- Tag of the actions. -/
def actions : UInt16 := 1

/-- Tag of the validity period. -/
def validity : UInt16 := 2

/-- Tag of the network requirement. -/
def network : UInt16 := 3

/-- Tag of the binding requirement. -/
def minBinding : UInt16 := 4

/-- Tag of the limit of opens. -/
def maxOpens : UInt16 := 5

/-- Tag of the watermark. -/
def watermark : UInt16 := 6

/-- Tag of the binding requirements of single actions. -/
def actionBinding : UInt16 := 7

end Tag

/-- First format version supporting per-action binding requirements. -/
def firstActionBindingVersion : UInt16 := 4

/-- Number of opens allowed when the field is absent. -/
def opensWhenTheFieldIsAbsent : UInt32 := 1

/-- The tag of an action. -/
def actionToTag : Action → UInt16
  | .view => 1
  | .edit => 2
  | .print => 3
  | .clipboard => 4
  | .exportAction => 5
  | .screenshot => 6

/-- The action of a tag. -/
def tagToAction (tag : UInt16) : Option Action :=
  match tag with
  | 1 => some .view
  | 2 => some .edit
  | 3 => some .print
  | 4 => some .clipboard
  | 5 => some .exportAction
  | 6 => some .screenshot
  | _ => none

/-- The byte of a rule: one value means permission. -/
def ruleByte : Rule → UInt8
  | .allow => 1
  | .deny => 0

/-- The byte of a binding level. -/
def encodeBinding : Binding → UInt8
  | .software => 1
  | .hardware => 2
  | .hardwareAttested => 3

/-- A binding level; an unknown one is refused, not rounded. -/
def decodeBinding (tag : UInt16) (value : UInt8) : Except FormatError Binding :=
  match value with
  | 1 => .ok .software
  | 2 => .ok .hardware
  | 3 => .ok .hardwareAttested
  | _ => .error (.badFieldLength tag 1)

/-! ### Values -/

/-- The bytes of a validity period: its kind and its numbers. -/
def encodeValidity : Validity → List UInt8
  | .always => [1]
  | .window notBefore notAfter => 2 :: (toLeBytes notBefore ++ toLeBytes notAfter)
  | .fromFirstOpen seconds => 3 :: toLeBytes seconds

/-- The bytes of a network requirement: its kind and its numbers. -/
def encodeNetwork : Network → List UInt8
  | .strictOnline => [1]
  | .lease seconds maxOfflineSeconds => 2 :: (toLeBytes seconds ++ toLeBytes maxOfflineSeconds)

/-- The kind of a value and what follows it. -/
def splitKind (tag : UInt16) (bytes : List UInt8) : Except FormatError (UInt8 × List UInt8) :=
  match bytes with
  | kind :: rest => .ok (kind, rest)
  | [] => .error (.badFieldLength tag 0)

/-- One number of eight bytes. -/
def oneI64 (tag : UInt16) (bytes : List UInt8) : Except FormatError Int64 :=
  okOr (ofLeBytes? bytes) (.badFieldLength tag bytes.length)

/-- Two numbers of eight bytes each. -/
def twoI64 (tag : UInt16) (bytes : List UInt8) : Except FormatError (Int64 × Int64) :=
  if bytes.length = 16 then
    match (slice? bytes 0 8).bind ofLeBytes?, (slice? bytes 8 16).bind ofLeBytes? with
    | some first, some second => .ok (first, second)
    | _, _ => .error (.badFieldLength tag bytes.length)
  else .error (.badFieldLength tag bytes.length)

/-- A validity period. -/
def decodeValidity (tag : UInt16) (bytes : List UInt8) : Except FormatError Validity := do
  let (kind, rest) ← splitKind tag bytes
  match kind, rest with
  | 1, [] => .ok .always
  | 2, rest => (twoI64 tag rest).map fun p ↦ .window p.1 p.2
  | 3, rest => (oneI64 tag rest).map .fromFirstOpen
  | _, _ => .error (.badFieldLength tag bytes.length)

/-- A network requirement. -/
def decodeNetwork (tag : UInt16) (bytes : List UInt8) : Except FormatError Network := do
  let (kind, rest) ← splitKind tag bytes
  match kind, rest with
  | 1, [] => .ok .strictOnline
  | 2, rest => (twoI64 tag rest).map fun p ↦ .lease p.1 p.2
  | _, _ => .error (.badFieldLength tag bytes.length)

/-- The limit of opens: an empty value means that the author set none. -/
def encodeMaxOpens (limit : Option UInt32) : List UInt8 :=
  match limit with
  | some limit => toLeBytes limit
  | none => []

/-- The limit of opens. -/
def decodeMaxOpens (tag : UInt16) (bytes : List UInt8) : Except FormatError (Option UInt32) :=
  match bytes with
  | [] => .ok none
  | _ => (okOr (ofLeBytes? bytes) (.badFieldLength tag bytes.length)).map some

/-! ### Encoding -/

/-- All actions by tag: the unknown ones as denials, then the six known ones. -/
def actionsByTag (policy : Policy) : BTreeMap UInt16 UInt8 :=
  Action.all.foldl (fun m action ↦ m.insert (actionToTag action) (ruleByte (policy.rule action)))
    (policy.unknownActions.iter.foldl (fun m unknown ↦ m.insert unknown (ruleByte .deny)) ∅)

/-- The value of the actions field. -/
def encodeActions (policy : Policy) : Except FormatError (List UInt8) :=
  TlvWriter.writeAll ((actionsByTag policy).entries.map fun e ↦ (e.1, [e.2]))

/-- The value of the action-binding field: all six known actions. -/
def encodeActionBinding (policy : Policy) : Except FormatError (List UInt8) :=
  TlvWriter.writeAll (Action.all.map fun action ↦
    (actionToTag action, [encodeBinding ((policy.actionBinding.get? action).getD .software)]))

/-- Encode a policy for a container version. -/
def encode (version : UInt16) (policy : Policy) : Except FormatError (List UInt8) := do
  let actions ← encodeActions policy
  let w ← TlvWriter.new.put Tag.actions actions
  let w ← w.put Tag.validity (encodeValidity policy.validity)
  let w ← w.put Tag.network (encodeNetwork policy.network)
  let w ← w.put Tag.minBinding [encodeBinding policy.minBinding]
  let w ← w.put Tag.maxOpens (encodeMaxOpens policy.maxOpens)
  let w ← w.put Tag.watermark [if policy.watermark then 1 else 0]
  if firstActionBindingVersion ≤ version then
    let bindings ← encodeActionBinding policy
    let w ← w.put Tag.actionBinding bindings
    .ok w.finish
  else .ok w.finish

/-! ### Decoding -/

/-- One entry of the actions field. -/
def decodeActionsStep (policy : Policy) (field : Field) : Except FormatError Policy := do
  let ruleByte ← field.u8
  match tagToAction field.tag with
  | some action =>
    if ruleByte = 1 then .ok { policy with actions := policy.actions.insert action .allow }
    else .ok policy
  | none => .ok { policy with unknownActions := policy.unknownActions.insert field.tag }

/-- The actions of a policy. -/
def decodeActions (bytes : List UInt8) (policy : Policy) : Except FormatError Policy :=
  TlvReader.foldFields decodeActionsStep (TlvReader.new bytes) policy

/-- One entry of the action-binding field. The weakest level is not stored, and a level for an
unknown action adds nothing to its denial. -/
def decodeActionBindingStep (policy : Policy) (field : Field) : Except FormatError Policy := do
  let value ← field.u8
  let binding ← decodeBinding field.tag value
  if binding = .software then .ok policy
  else
    match tagToAction field.tag with
    | some action =>
      .ok { policy with actionBinding := policy.actionBinding.insert action binding }
    | none => .ok policy

/-- The binding requirements of single actions. -/
def decodeActionBinding (bytes : List UInt8) (policy : Policy) : Except FormatError Policy :=
  TlvReader.foldFields decodeActionBindingStep (TlvReader.new bytes) policy

/-- The policy read so far, and which of its fields have been seen. -/
structure Reading where
  policy : Policy
  seenActions : Bool := false
  seenValidity : Bool := false
  seenNetwork : Bool := false
  seenBinding : Bool := false
  seenActionBinding : Bool := false

/-- Before the first field the modifiers have their strict values. -/
def Reading.start : Reading where
  policy := { Policy.denyAll with watermark := true, maxOpens := some opensWhenTheFieldIsAbsent }

/-- One field of a policy, by the tags of `Tag`. A tag that is not defined for the version is
critical, whatever its range. -/
def decodeStep (version : UInt16) (acc : Reading) (field : Field) : Except FormatError Reading :=
  match field.tag with
  | 1 => do
    let policy ← decodeActions field.value acc.policy
    .ok { acc with policy := policy, seenActions := true }
  | 2 => do
    let validity ← decodeValidity field.tag field.value
    .ok { acc with policy := { acc.policy with validity := validity }, seenValidity := true }
  | 3 => do
    let network ← decodeNetwork field.tag field.value
    .ok { acc with policy := { acc.policy with network := network }, seenNetwork := true }
  | 4 => do
    let value ← field.u8
    let binding ← decodeBinding field.tag value
    .ok { acc with policy := { acc.policy with minBinding := binding }, seenBinding := true }
  | 5 => do
    -- the absence of this field is not remembered: its default stays
    let limit ← decodeMaxOpens field.tag field.value
    .ok { acc with policy := { acc.policy with maxOpens := limit } }
  | 6 => do
    let value ← field.u8
    .ok { acc with policy := { acc.policy with watermark := value != 0 } }
  | 7 =>
    if firstActionBindingVersion ≤ version then do
      let policy ← decodeActionBinding field.value acc.policy
      .ok { acc with policy := policy, seenActionBinding := true }
    else .error (.unknownCriticalField field.tag)
  | other => .error (.unknownCriticalField other)

/-- No required field is missing. -/
def checkSeen (version : UInt16) (acc : Reading) : Except FormatError Unit := do
  refuseIf (acc.seenActions = false) (.missingField Tag.actions)
  refuseIf (acc.seenValidity = false) (.missingField Tag.validity)
  refuseIf (acc.seenNetwork = false) (.missingField Tag.network)
  refuseIf (acc.seenBinding = false) (.missingField Tag.minBinding)
  refuseIf (firstActionBindingVersion ≤ version ∧ acc.seenActionBinding = false)
    (.missingField Tag.actionBinding)

/-- Parse a policy without weakening missing rules. -/
def decode (version : UInt16) (bytes : List UInt8) : Except FormatError Policy := do
  let acc ← TlvReader.foldFields (decodeStep version) (TlvReader.new bytes) Reading.start
  checkSeen version acc
  .ok acc.policy

/-! ### Tags and values, back and forth -/

@[simp] theorem tagToAction_actionToTag (a : Action) : tagToAction (actionToTag a) = some a := by
  cases a <;> rfl

theorem tagToAction_eq_some_iff {tag : UInt16} {a : Action} :
    tagToAction tag = some a ↔ tag = actionToTag a := by
  refine ⟨fun h ↦ ?_, fun h ↦ h ▸ tagToAction_actionToTag a⟩
  unfold tagToAction at h
  split at h <;> cases h <;> rfl

theorem actionToTag_inj {a b : Action} : actionToTag a = actionToTag b ↔ a = b := by
  refine ⟨fun h ↦ ?_, fun h ↦ h ▸ rfl⟩
  rw [← tagToAction_eq_some_iff, tagToAction_actionToTag] at h
  exact Option.some_inj.mp h

/-- The tags of the actions are 1 to 6. -/
theorem tagToAction_eq_none_iff {tag : UInt16} :
    tagToAction tag = none ↔ ¬(1 ≤ tag ∧ tag ≤ 6) := by
  have hnat : (1 ≤ tag ∧ tag ≤ 6) ↔ 1 ≤ tag.toNat ∧ tag.toNat ≤ 6 := by
    rw [UInt16.le_iff_toNat_le, UInt16.le_iff_toNat_le]
    rfl
  constructor
  · intro h hle
    obtain ⟨hlow, hhigh⟩ := hnat.mp hle
    have hcases : tag = 1 ∨ tag = 2 ∨ tag = 3 ∨ tag = 4 ∨ tag = 5 ∨ tag = 6 := by
      simp only [← UInt16.toNat_inj, UInt16.reduceToNat]
      omega
    rcases hcases with rfl | rfl | rfl | rfl | rfl | rfl <;> exact absurd h (by decide)
  · intro hle
    rcases h : tagToAction tag with - | a
    · rfl
    · rw [tagToAction_eq_some_iff] at h
      subst h
      exact absurd (by cases a <;> decide) hle

@[simp] theorem decodeBinding_encodeBinding (tag : UInt16) (b : Binding) :
    decodeBinding tag (encodeBinding b) = .ok b := by
  cases b <;> rfl

theorem twoI64_append (tag : UInt16) (a b : Int64) :
    twoI64 tag (toLeBytes a ++ toLeBytes b) = .ok (a, b) := by
  have hfirst := slice?_append [] (toLeBytes a) (toLeBytes b)
  have hsecond := slice?_append (toLeBytes a) (toLeBytes b) []
  rw [List.append_nil, length_toLeBytes, length_toLeBytes] at hsecond
  rw [List.nil_append, length_toLeBytes] at hfirst
  have hlen : (toLeBytes a ++ toLeBytes b).length = 16 := by
    rw [List.length_append, length_toLeBytes, length_toLeBytes]
    rfl
  rw [twoI64, if_pos hlen, show slice? _ 0 8 = some (toLeBytes a) from hfirst,
    show slice? _ 8 16 = some (toLeBytes b) from hsecond]
  simp

@[simp] theorem decodeValidity_encodeValidity (tag : UInt16) (v : Validity) :
    decodeValidity tag (encodeValidity v) = .ok v := by
  cases v with
  | always => rfl
  | window notBefore notAfter =>
    simp [decodeValidity, encodeValidity, splitKind, twoI64_append, Except.map]
  | fromFirstOpen seconds => simp [decodeValidity, encodeValidity, splitKind, oneI64, Except.map]

@[simp] theorem decodeNetwork_encodeNetwork (tag : UInt16) (n : Network) :
    decodeNetwork tag (encodeNetwork n) = .ok n := by
  cases n with
  | strictOnline => rfl
  | lease seconds maxOfflineSeconds =>
    simp [decodeNetwork, encodeNetwork, splitKind, twoI64_append, Except.map]

@[simp] theorem decodeMaxOpens_encodeMaxOpens (tag : UInt16) (limit : Option UInt32) :
    decodeMaxOpens tag (encodeMaxOpens limit) = .ok limit := by
  rcases limit with - | limit
  · rfl
  · have hlen : (toLeBytes limit).length = 4 := length_toLeBytes limit
    rcases hb : toLeBytes limit with - | ⟨b, bs⟩
    · exact absurd hlen (by simp [hb])
    · simp only [encodeMaxOpens, hb, decodeMaxOpens]
      rw [← hb, ofLeBytes?_toLeBytes]
      rfl

/-! ### Normal form -/

/-- A policy as it is decoded: no explicit denial, no requirement that requires nothing, and no
requirement of a single action before its version. -/
structure IsNormal (version : UInt16) (p : Policy) : Prop where
  noDeny : ∀ a, p.actions.get? a ≠ some .deny
  noSoftware : ∀ a, p.actionBinding.get? a ≠ some .software
  unknown : ∀ t ∈ p.unknownActions, tagToAction t = none
  versioned : version < firstActionBindingVersion → ∀ a, p.actionBinding.get? a = none

/-! ### Actions -/

/-- The unknown actions are denials. -/
theorem get?_foldl_unknown (l : List UInt16) (m : BTreeMap UInt16 UInt8) (tag : UInt16) :
    (l.foldl (fun m unknown ↦ m.insert unknown (ruleByte .deny)) m).get? tag =
      if tag ∈ l then some (ruleByte .deny) else m.get? tag := by
  induction l generalizing m with
  | nil => simp
  | cons t l ih =>
    rw [List.foldl_cons, ih, BTreeMap.get?_insert]
    by_cases ht : tag = t <;> simp [ht]

/-- The known actions are stored under their own tags. -/
theorem get?_foldl_known (p : Policy) (l : List Action) (m : BTreeMap UInt16 UInt8) (tag : UInt16) :
    (l.foldl (fun m action ↦ m.insert (actionToTag action) (ruleByte (p.rule action))) m).get? tag =
      match tagToAction tag with
      | some a => if a ∈ l then some (ruleByte (p.rule a)) else m.get? tag
      | none => m.get? tag := by
  -- the tags of the actions differ, so an insertion touches its own action only
  induction l generalizing m with
  | nil => rcases tagToAction tag with - | a <;> simp
  | cons b l ih =>
    rw [List.foldl_cons, ih, BTreeMap.get?_insert]
    rcases ht : tagToAction tag with - | a
    · have hne : tag ≠ actionToTag b := by
        rintro rfl
        simp at ht
      simp [hne]
    · rw [tagToAction_eq_some_iff] at ht
      subst ht
      by_cases hab : a = b <;> simp [actionToTag_inj, hab]

/-- What the actions map holds under a tag. -/
theorem get?_actionsByTag (p : Policy) (tag : UInt16) :
    (actionsByTag p).get? tag =
      match tagToAction tag with
      | some a => some (ruleByte (p.rule a))
      | none => if tag ∈ p.unknownActions then some (ruleByte .deny) else none := by
  rw [actionsByTag, get?_foldl_known, get?_foldl_unknown]
  rcases tagToAction tag with - | a
  · simp [BTreeSet.mem_iter]
  · simp [Action.mem_all]

/-- Decoding one entry of the actions field: a permission or an unknown tag is added. -/
theorem exists_decodeActionsStep (q : Policy) (t : UInt16) (b : UInt8) (span : Span) :
    ∃ actions unknown, decodeActionsStep q ⟨t, [b], span⟩ =
        .ok { q with actions := actions, unknownActions := unknown } ∧
      (∀ a, actions.get? a =
        if (actionToTag a, 1) = (t, b) then some .allow else q.actions.get? a) ∧
      ∀ t', t' ∈ unknown ↔ t' ∈ q.unknownActions ∨ tagToAction t = none ∧ t' = t := by
  rcases ht : tagToAction t with - | a
  · -- an unknown action is remembered, whatever its byte
    refine ⟨q.actions, q.unknownActions.insert t, ?_, fun a ↦ ?_, fun t' ↦ ?_⟩
    · simp only [decodeActionsStep, Field.u8, ht, Except.ok_bind]
    · have hne : actionToTag a ≠ t := by
        rintro rfl
        simp at ht
      simp [hne]
    · rw [BTreeSet.mem_insert]
      simp [or_comm]
  · rw [tagToAction_eq_some_iff] at ht
    subst ht
    rcases eq_or_ne b 1 with rfl | hb
    · refine ⟨q.actions.insert a .allow, q.unknownActions, ?_, fun a' ↦ ?_, by simp⟩
      · simp only [decodeActionsStep, Field.u8, tagToAction_actionToTag, Except.ok_bind, if_true]
      · simp [BTreeMap.get?_insert, actionToTag_inj]
    · -- a byte other than the permission's is a denial, which the map does not store
      refine ⟨q.actions, q.unknownActions, ?_, fun a' ↦ ?_, by simp⟩
      · simp only [decodeActionsStep, Field.u8, tagToAction_actionToTag, Except.ok_bind, hb,
          if_false]
      · simp [hb.symm]

/-- Decoding entries of the actions field: permissions and unknown tags are added. -/
theorem foldlM_decodeActionsStep (l : List (UInt16 × UInt8)) (offset : ℕ) (q : Policy) :
    ∃ actions unknown, (fieldsOf offset (l.map fun e ↦ (e.1, [e.2]))).foldlM decodeActionsStep q =
        .ok { q with actions := actions, unknownActions := unknown } ∧
      (∀ a, actions.get? a =
        if (actionToTag a, 1) ∈ l then some .allow else q.actions.get? a) ∧
      ∀ t, t ∈ unknown ↔ t ∈ q.unknownActions ∨ tagToAction t = none ∧ ∃ b, (t, b) ∈ l := by
  induction l generalizing offset q with
  | nil => exact ⟨q.actions, q.unknownActions, rfl, by simp, by simp⟩
  | cons e l ih =>
    obtain ⟨t, b⟩ := e
    rw [List.map_cons, fieldsOf, List.foldlM_cons]
    obtain ⟨actions₁, unknown₁, hstep, hactions₁, hunknown₁⟩ := exists_decodeActionsStep q t b
      ⟨offset + fieldPrefixLen, offset + fieldPrefixLen + [b].length⟩
    obtain ⟨actions, unknown, hfold, hactions, hunknown⟩ :=
      ih (offset + fieldPrefixLen + [b].length)
        { q with actions := actions₁, unknownActions := unknown₁ }
    refine ⟨actions, unknown, ?_, fun a ↦ ?_, fun t' ↦ ?_⟩
    · rw [hstep, Except.ok_bind]
      exact hfold
    · simp only [hactions, hactions₁, List.mem_cons]
      by_cases hhead : (actionToTag a, 1) = (t, b) <;> simp [hhead]
    · rw [hunknown, hunknown₁]
      grind

/-- Decoding the requirements of actions: those that require something are added. -/
theorem foldlM_decodeActionBindingStep (l : List Action) (g : Action → Binding) (offset : ℕ)
    (q : Policy) :
    ∃ bindings, (fieldsOf offset (l.map fun a ↦ (actionToTag a, [encodeBinding (g a)]))).foldlM
        decodeActionBindingStep q = .ok { q with actionBinding := bindings } ∧
      ∀ a, bindings.get? a =
        if a ∈ l ∧ g a ≠ .software then some (g a) else q.actionBinding.get? a := by
  induction l generalizing offset q with
  | nil => exact ⟨q.actionBinding, rfl, by simp⟩
  | cons a l ih =>
    rw [List.map_cons, fieldsOf, List.foldlM_cons]
    obtain ⟨bindings, hfold, hbindings⟩ :=
      ih (offset + fieldPrefixLen + [encodeBinding (g a)].length)
        (if g a = .software then q
          else { q with actionBinding := q.actionBinding.insert a (g a) })
    refine ⟨bindings, ?_, fun a' ↦ ?_⟩
    · simp only [decodeActionBindingStep, Field.u8, decodeBinding_encodeBinding,
        tagToAction_actionToTag, Except.ok_bind]
      split_ifs at hfold ⊢ with hsoft <;> exact hfold
    · by_cases hsoft : g a = .software <;> by_cases ha : a' = a <;>
        simp [hbindings, hsoft, ha, BTreeMap.get?_insert]

/-! ### Encoding is the writing of a list -/

/-- The tags and values of a policy in every version, given its actions field. -/
def commonContents (policy : Policy) (actions : List UInt8) : Contents :=
  [(1, actions), (2, encodeValidity policy.validity), (3, encodeNetwork policy.network),
    (4, [encodeBinding policy.minBinding]), (5, encodeMaxOpens policy.maxOpens),
    (6, [if policy.watermark then 1 else 0])]

/-- The tags and values of a policy, given its two nested maps. -/
def contents (version : UInt16) (policy : Policy) (actions bindings : List UInt8) : Contents :=
  commonContents policy actions ++
    if firstActionBindingVersion ≤ version then [(7, bindings)] else []

theorem encode_eq_writeAll {version : UInt16} {p : Policy} {actions bindings : List UInt8}
    (hactions : encodeActions p = .ok actions) (hbindings : encodeActionBinding p = .ok bindings) :
    encode version p = TlvWriter.writeAll (contents version p actions bindings) := by
  unfold encode contents commonContents TlvWriter.writeAll
  split_ifs <;>
    simp only [hactions, hbindings, Except.ok_bind, TlvWriter.putMany_cons, TlvWriter.putMany_nil,
      List.cons_append, List.nil_append, bind_assoc] <;> rfl

/-- A map keyed by tags has at most as many entries as there are tags. -/
theorem length_entries_le {ν : Type} (m : BTreeMap UInt16 ν) : m.entries.length ≤ 2 ^ 16 := by
  have hnodup : (m.entries.map fun e ↦ e.1.toNat).Nodup :=
    List.pairwise_map.mpr (m.sorted.imp fun h ↦ (UInt16.lt_iff_toNat_lt.mp h).ne)
  have hsub : (m.entries.map fun e ↦ e.1.toNat).toFinset ⊆ Finset.range (2 ^ 16) := by
    intro n hn
    obtain ⟨e, -, rfl⟩ := List.mem_map.mp (List.mem_toFinset.mp hn)
    exact Finset.mem_range.mpr e.1.toNat_lt
  have hcard := Finset.card_le_card hsub
  rwa [List.toFinset_card_of_nodup hnodup, List.length_map, Finset.card_range] at hcard

theorem encodedLength_singletons (l : List (UInt16 × UInt8)) :
    encodedLength (l.map fun e ↦ (e.1, [e.2])) = 7 * l.length := by
  induction l with
  | nil => rfl
  | cons e l ih =>
    rw [List.map_cons, encodedLength_cons, ih, List.length_singleton, List.length_cons,
      fieldPrefixLen]
    omega

/-- The actions field is written, and it is short. -/
theorem exists_encodeActions (p : Policy) :
    ∃ actions, encodeActions p = .ok actions ∧ actions.length ≤ 7 * 2 ^ 16 ∧
      Encodes actions ((actionsByTag p).entries.map fun e ↦ (e.1, [e.2])) := by
  obtain ⟨actions, hwrite, henc, hlen⟩ := TlvWriter.exists_writeAll
    (l := (actionsByTag p).entries.map fun e ↦ (e.1, [e.2]))
    (by
      rw [List.map_map]
      exact List.pairwise_map.mpr (actionsByTag p).sorted)
    (by
      intro q hq
      obtain ⟨e, -, rfl⟩ := List.mem_map.mp hq
      show 1 < 2 ^ 32
      decide)
  refine ⟨actions, hwrite, ?_, henc⟩
  rw [hlen, encodedLength_singletons]
  exact Nat.mul_le_mul_left 7 (length_entries_le _)

/-- The action-binding field is written: one byte for each of the six actions. -/
theorem exists_encodeActionBinding (p : Policy) :
    ∃ bindings, encodeActionBinding p = .ok bindings ∧ bindings.length = 42 ∧
      Encodes bindings (Action.all.map fun a ↦
        (actionToTag a, [encodeBinding ((p.actionBinding.get? a).getD .software)])) := by
  obtain ⟨bindings, hwrite, henc, hlen⟩ := TlvWriter.exists_writeAll
    (l := Action.all.map fun a ↦
      (actionToTag a, [encodeBinding ((p.actionBinding.get? a).getD .software)]))
    (by
      rw [List.map_map]
      exact (by decide : (Action.all.map actionToTag).Pairwise (· < ·)))
    (by simp)
  exact ⟨bindings, hwrite, hlen, henc⟩

/-! ### Decoding what was encoded -/

/-- Reading the actions field back restores what a policy in normal form names. -/
theorem decodeActions_encode {version : UInt16} {p q : Policy} (hp : IsNormal version p)
    {actions : List UInt8}
    (henc : Encodes actions ((actionsByTag p).entries.map fun e ↦ (e.1, [e.2])))
    (hactions : q.actions = ∅) (hunknown : q.unknownActions = ∅) :
    decodeActions actions q =
      .ok { q with actions := p.actions, unknownActions := p.unknownActions } := by
  obtain ⟨actions', unknown', hfold, hget, hmem⟩ :=
    foldlM_decodeActionsStep (actionsByTag p).entries 0 q
  obtain rfl : actions' = p.actions := by
    refine BTreeMap.ext_get? fun a ↦ ?_
    simp only [hget, ← BTreeMap.get?_eq_some_iff, get?_actionsByTag, tagToAction_actionToTag,
      hactions, BTreeMap.get?_empty]
    rcases h : p.actions.get? a with - | - | -
    · simp [Policy.rule, h, ruleByte]
    · simp [Policy.rule, h, ruleByte]
    · exact absurd h (hp.noDeny a)
  obtain rfl : unknown' = p.unknownActions := by
    refine BTreeSet.ext_mem fun t ↦ ?_
    simp only [hmem, hunknown, BTreeSet.not_mem_empty, false_or, ← BTreeMap.get?_eq_some_iff,
      get?_actionsByTag]
    constructor
    · rintro ⟨hnone, b, hb⟩
      rw [hnone] at hb
      by_contra hnot
      simp [hnot] at hb
    · intro ht
      exact ⟨hp.unknown t ht, ruleByte .deny, by simp [hp.unknown t ht, ht]⟩
  rw [decodeActions, henc.foldFields, hfold]

/-- Reading the action-binding field back restores the requirements of a policy in normal form. -/
theorem decodeActionBinding_encode {version : UInt16} {p q : Policy} (hp : IsNormal version p)
    {bindings : List UInt8}
    (henc : Encodes bindings (Action.all.map fun a ↦
      (actionToTag a, [encodeBinding ((p.actionBinding.get? a).getD .software)])))
    (hq : q.actionBinding = ∅) :
    decodeActionBinding bindings q = .ok { q with actionBinding := p.actionBinding } := by
  obtain ⟨bindings', hfold, hget⟩ := foldlM_decodeActionBindingStep Action.all
    (fun a ↦ (p.actionBinding.get? a).getD .software) 0 q
  obtain rfl : bindings' = p.actionBinding := by
    refine BTreeMap.ext_get? fun a ↦ ?_
    rw [hget, hq, BTreeMap.get?_empty]
    rcases h : p.actionBinding.get? a with - | b
    · simp
    · have hne : b ≠ .software := fun hb ↦ hp.noSoftware a (hb ▸ h)
      simp [Action.mem_all, hne]
  rw [decodeActionBinding, henc.foldFields, hfold]

theorem length_encodeValidity_le (v : Validity) : (encodeValidity v).length ≤ 17 := by
  cases v <;> simp [encodeValidity, LeInt.width]

theorem length_encodeNetwork_le (n : Network) : (encodeNetwork n).length ≤ 17 := by
  cases n <;> simp [encodeNetwork, LeInt.width]

theorem length_encodeMaxOpens_le (limit : Option UInt32) : (encodeMaxOpens limit).length ≤ 4 := by
  cases limit <;> simp [encodeMaxOpens, LeInt.width]

/-- A policy is short, whatever its fields are. -/
theorem encodedLength_contents_lt (version : UInt16) (p : Policy) {actions bindings : List UInt8}
    (hactions : actions.length ≤ 7 * 2 ^ 16) (hbindings : bindings.length = 42) :
    encodedLength (contents version p actions bindings) < 2 ^ 20 := by
  have hvalidity := length_encodeValidity_le p.validity
  have hnetwork := length_encodeNetwork_le p.network
  have hopens := length_encodeMaxOpens_le p.maxOpens
  unfold contents commonContents
  split_ifs <;>
    simp only [List.cons_append, List.nil_append, encodedLength_cons, encodedLength_nil,
      fieldPrefixLen, List.length_singleton] <;> omega

/-- The contents of a policy are written, in far less than the length of a field. -/
theorem exists_encodes_contents (version : UInt16) (p : Policy) {actions bindings : List UInt8}
    (hactions : actions.length ≤ 7 * 2 ^ 16) (hbindings : bindings.length = 42) :
    ∃ bytes, Encodes bytes (contents version p actions bindings) ∧ bytes.length < 2 ^ 32 := by
  have htags : ((contents version p actions bindings).map Prod.fst).Pairwise (· < ·) := by
    have heq : (contents version p actions bindings).map Prod.fst =
        [1, 2, 3, 4, 5, 6] ++ if firstActionBindingVersion ≤ version then [7] else [] := by
      unfold contents commonContents
      split_ifs <;> rfl
    rw [heq]
    split_ifs <;> decide
  exact Encodes.exists_of_short htags
    ((encodedLength_contents_lt version p hactions hbindings).trans (by decide))

/-- A policy is written in less than a mebibyte. -/
theorem length_encode_lt {version : UInt16} {p : Policy} {bytes : List UInt8}
    (h : encode version p = .ok bytes) : bytes.length < 2 ^ 20 := by
  obtain ⟨actions, hactions, hactionsLen, -⟩ := exists_encodeActions p
  obtain ⟨bindings, hbindings, hbindingsLen, -⟩ := exists_encodeActionBinding p
  rw [encode_eq_writeAll hactions hbindings, TlvWriter.writeAll_eq_ok_iff] at h
  rw [h.length_eq]
  exact encodedLength_contents_lt version p hactionsLen hbindingsLen

/-- The six fields of every version are read back. -/
theorem foldlM_decodeStep {version : UInt16} {p : Policy} (hp : IsNormal version p)
    {actions : List UInt8}
    (hactions : Encodes actions ((actionsByTag p).entries.map fun e ↦ (e.1, [e.2]))) :
    (fieldsOf 0 (commonContents p actions)).foldlM (decodeStep version) Reading.start =
      .ok ⟨{ p with actionBinding := ∅ }, true, true, true, true, false⟩ := by
  have hdecode := decodeActions_encode hp hactions (q := Reading.start.policy) rfl rfl
  have hwatermark : ((if p.watermark then 1 else 0) != (0 : UInt8)) = p.watermark := by
    cases p.watermark <;> rfl
  simp only [commonContents, fieldsOf, List.foldlM_cons, decodeStep, hdecode,
    decodeValidity_encodeValidity, decodeNetwork_encodeNetwork, Field.u8,
    decodeBinding_encodeBinding, decodeMaxOpens_encodeMaxOpens, Except.ok_bind, hwatermark]
  rfl

/-- **Round trip.** A policy in normal form is encoded, and decoded as itself. -/
theorem decode_encode {version : UInt16} {p : Policy} (hp : IsNormal version p) :
    ∃ bytes, encode version p = .ok bytes ∧ bytes.length < 2 ^ 32 ∧
      decode version bytes = .ok p := by
  obtain ⟨actions, hactions, hactionsLen, hactionsEnc⟩ := exists_encodeActions p
  obtain ⟨bindings, hbindings, hbindingsLen, hbindingsEnc⟩ := exists_encodeActionBinding p
  obtain ⟨bytes, henc, hshort⟩ := exists_encodes_contents version p hactionsLen hbindingsLen
  refine ⟨bytes, ?_, hshort, ?_⟩
  · rw [encode_eq_writeAll hactions hbindings, TlvWriter.writeAll_eq_ok_iff]
    exact henc
  rw [decode, henc.foldFields, contents, fieldsOf_append, List.foldlM_append,
    foldlM_decodeStep hp hactionsEnc, Except.ok_bind]
  by_cases hversion : firstActionBindingVersion ≤ version
  · have hdecode := decodeActionBinding_encode hp hbindingsEnc
      (q := { p with actionBinding := ∅ }) rfl
    simp only [hversion, if_true, fieldsOf, List.foldlM_cons, decodeStep, hdecode, Except.ok_bind,
      Except.foldlM_nil]
    simp [checkSeen, refuseIf]
  · have hnone : p.actionBinding = ∅ :=
      BTreeMap.ext_get? fun a ↦ hp.versioned (not_le.mp hversion) a
    simp only [hversion, if_false, fieldsOf, Except.foldlM_nil, Except.ok_bind]
    simp [checkSeen, refuseIf, hversion, ← hnone]

/-! ### What is decoded is in normal form -/

namespace IsNormal

variable {version : UInt16} {p q : Policy}

/-- Normal form is about the three maps alone. -/
theorem congr (hp : IsNormal version p) (hactions : q.actions = p.actions)
    (hbinding : q.actionBinding = p.actionBinding)
    (hunknown : q.unknownActions = p.unknownActions) : IsNormal version q :=
  ⟨hactions ▸ hp.noDeny, hbinding ▸ hp.noSoftware, hunknown ▸ hp.unknown, hbinding ▸ hp.versioned⟩

theorem start : IsNormal version Reading.start.policy :=
  ⟨fun _ ↦ nofun, fun _ ↦ nofun, fun t ht ↦ absurd ht (BTreeSet.not_mem_empty t), fun _ _ ↦ rfl⟩

theorem decodeActionsStep {field : Field} (hp : IsNormal version p)
    (h : PolicyCodec.decodeActionsStep p field = .ok q) : IsNormal version q := by
  obtain ⟨byte, -, h⟩ := Except.bind_eq_ok_iff.mp h
  rcases ht : tagToAction field.tag with - | a
  · rw [ht] at h
    obtain rfl := Except.ok.inj h
    refine ⟨hp.noDeny, hp.noSoftware, fun t hmem ↦ ?_, hp.versioned⟩
    rcases BTreeSet.mem_insert.mp hmem with rfl | hmem
    · exact ht
    · exact hp.unknown t hmem
  · simp only [ht] at h
    split_ifs at h
    · obtain rfl := Except.ok.inj h
      refine ⟨fun a' ↦ ?_, hp.noSoftware, hp.unknown, hp.versioned⟩
      show (p.actions.insert a .allow).get? a' ≠ some .deny
      rw [BTreeMap.get?_insert]
      split_ifs
      · exact fun heq ↦ nomatch heq
      · exact hp.noDeny a'
    · exact Except.ok.inj h ▸ hp

theorem decodeActionBindingStep {field : Field} (hversion : firstActionBindingVersion ≤ version)
    (hp : IsNormal version p) (h : PolicyCodec.decodeActionBindingStep p field = .ok q) :
    IsNormal version q := by
  obtain ⟨byte, -, h⟩ := Except.bind_eq_ok_iff.mp h
  obtain ⟨b, -, h⟩ := Except.bind_eq_ok_iff.mp h
  split_ifs at h with hsoft
  · exact Except.ok.inj h ▸ hp
  · rcases ht : tagToAction field.tag with - | a
    · rw [ht] at h
      exact Except.ok.inj h ▸ hp
    · rw [ht] at h
      obtain rfl := Except.ok.inj h
      refine ⟨hp.noDeny, fun a' ↦ ?_, hp.unknown, fun hlt ↦ absurd hversion (not_le.mpr hlt)⟩
      show (p.actionBinding.insert a b).get? a' ≠ some .software
      rw [BTreeMap.get?_insert]
      split_ifs
      · exact fun heq ↦ hsoft (Option.some_inj.mp heq)
      · exact hp.noSoftware a'

/-- A loop that keeps normal form with every field keeps it. -/
theorem foldFields {step : Policy → Field → Except FormatError Policy} {bytes : List UInt8}
    (h : TlvReader.foldFields step (TlvReader.new bytes) p = .ok q) (hp : IsNormal version p)
    (hstep : ∀ {p q field}, IsNormal version p → step p field = .ok q → IsNormal version q) :
    IsNormal version q := by
  obtain ⟨l, -, hfold⟩ := exists_encodes_of_foldFields h
  exact Except.foldlM_invariant hfold hp fun _ _ ↦ hstep

theorem decodeStep {acc acc' : Reading} {field : Field} (hp : IsNormal version acc.policy)
    (h : PolicyCodec.decodeStep version acc field = .ok acc') : IsNormal version acc'.policy := by
  rw [PolicyCodec.decodeStep] at h
  split at h
  · obtain ⟨policy, hpolicy, h⟩ := Except.bind_eq_ok_iff.mp h
    obtain rfl := Except.ok.inj h
    exact foldFields hpolicy hp decodeActionsStep
  · obtain ⟨_, -, h⟩ := Except.bind_eq_ok_iff.mp h
    exact Except.ok.inj h ▸ hp.congr rfl rfl rfl
  · obtain ⟨_, -, h⟩ := Except.bind_eq_ok_iff.mp h
    exact Except.ok.inj h ▸ hp.congr rfl rfl rfl
  · obtain ⟨_, -, h⟩ := Except.bind_eq_ok_iff.mp h
    obtain ⟨_, -, h⟩ := Except.bind_eq_ok_iff.mp h
    exact Except.ok.inj h ▸ hp.congr rfl rfl rfl
  · obtain ⟨_, -, h⟩ := Except.bind_eq_ok_iff.mp h
    exact Except.ok.inj h ▸ hp.congr rfl rfl rfl
  · obtain ⟨_, -, h⟩ := Except.bind_eq_ok_iff.mp h
    exact Except.ok.inj h ▸ hp.congr rfl rfl rfl
  · split_ifs at h with hversion
    obtain ⟨policy, hpolicy, h⟩ := Except.bind_eq_ok_iff.mp h
    obtain rfl := Except.ok.inj h
    exact foldFields hpolicy hp (decodeActionBindingStep hversion)
  · exact nomatch h

end IsNormal

/-- **Normalisation.** Whatever bytes are accepted, the policy is in normal form. -/
theorem isNormal_of_decode {version : UInt16} {bytes : List UInt8} {p : Policy}
    (h : decode version bytes = .ok p) : IsNormal version p := by
  obtain ⟨acc, hacc, h⟩ := Except.bind_eq_ok_iff.mp h
  obtain ⟨-, h⟩ := Except.check_bind_eq_ok_iff.mp h
  obtain rfl := Except.ok.inj h
  obtain ⟨l, -, hfold⟩ := exists_encodes_of_foldFields hacc
  exact Except.foldlM_invariant (P := fun acc : Reading ↦ IsNormal version acc.policy) hfold
    IsNormal.start fun _ _ ↦ IsNormal.decodeStep

end OpenCrate.Format.PolicyCodec
