import OpenCrate.Data.SplitOnce
import OpenCrate.Protocol.AttributeRule

/-!
# Conditions as text

On a command line a condition is typed as `name=a|b`, `name=a&b` or `name>=a` (`parseClause`). Names and
values are identifiers, and no identifier has a character of an operator, so that a text is the rendering of
the condition it is read as, and of no other; only one value after `=` is read as any of one value and never
as all of them.
-/

namespace OpenCrate.Protocol.AttributeRule

open Except (refuseIf okOr)

/-! ### Reading and rendering -/

/-- Command-line condition. What contains `>=` also contains `=`, so that it is looked for first. -/
def parseClause (text : String) : Except String Clause :=
  match ['>', '='].splitOnce? text.toList with
  | some (attribute_, value) => .ok ⟨.ofList attribute_, .atLeast, [.ofList value]⟩
  | none => do
    let (attribute_, values) ← okOr (['='].splitOnce? text.toList) "ожидалось имя=значение"
    refuseIf ('|' ∈ values ∧ '&' ∈ values) "«любое из» и «все» в одном условии не смешиваются"
    let (mode, split) := if '&' ∈ values then (Mode.allOf, '&') else (Mode.anyOf, '|')
    .ok ⟨.ofList attribute_, mode, (values.splitOn split).map String.ofList⟩

/-- The text of a condition. -/
def Clause.render (clause : Clause) : String :=
  match clause.mode with
  | .atLeast => clause.attribute_ ++ ">=" ++ String.join clause.values
  | .anyOf => clause.attribute_ ++ "=" ++ "|".intercalate clause.values
  | .allOf => clause.attribute_ ++ "=" ++ "&".intercalate clause.values

/-! ### Identifiers -/

/-- The bytes of a text are those of its characters. -/
theorem utf8_eq_flatMap (text : String) : utf8 text = text.toList.flatMap String.utf8EncodeChar := by
  rw [utf8, String.toUTF8, ← String.utf8Encode_toList, List.utf8Encode, List.data_toByteArray]

/-- The characters of the operators. -/
def operators : List Char := ['>', '=', '|', '&']

/-- **No character of an operator is in an identifier.** -/
theorem not_mem_of_isIdentifier {text : String} (h : isIdentifier text = true) {c : Char}
    (hc : c ∈ operators) : c ∉ text.toList := by
  intro hmem
  simp only [isIdentifier, Bool.and_eq_true, List.all_eq_true, utf8_eq_flatMap] at h
  have hbad : (operators.all fun c ↦ (String.utf8EncodeChar c).any fun b ↦ !isIdentifierByte b) = true := by
    decide
  obtain ⟨b, hb, hnot⟩ := List.any_eq_true.mp (List.all_eq_true.mp hbad c hc)
  rw [h.2 b (List.mem_flatMap.mpr ⟨c, hmem, hb⟩)] at hnot
  exact absurd hnot Bool.false_ne_true

/-- What passes the check of a condition. -/
theorem valid_of_checkClause {at_ : UInt16} {clause : Clause} (h : checkClause at_ clause = .ok ()) :
    isIdentifier clause.attribute_ = true ∧ (∀ value ∈ clause.values, isIdentifier value = true) ∧
      clause.values ≠ [] ∧ (clause.mode = .atLeast → clause.values.length = 1) := by
  simp only [checkClause, Except.check_bind_eq_ok_iff, Except.refuseIf_eq_ok_iff, not_or,
    Bool.not_eq_false, List.all_eq_true, not_and, not_not] at h
  obtain ⟨⟨hname, hvalues⟩, ⟨hsome, -⟩, hone⟩ := h
  exact ⟨hname, hvalues, hsome, hone⟩

/-! ### What is read is rendered as it came -/

/-- **A text is the rendering of what it is read as.** -/
theorem render_of_parseClause {text : String} {clause : Clause} (h : parseClause text = .ok clause) :
    clause.render = text := by
  rw [parseClause] at h
  split at h
  case h_1 attribute_ value hsplit =>
    obtain rfl := Except.ok.inj h
    refine String.toList_inj.mp ?_
    rw [List.eq_append_of_splitOnce? hsplit, Clause.render]
    simp [String.toList_append]
  case h_2 =>
    obtain ⟨⟨attribute_, values⟩, hsplit, h⟩ := Except.bind_eq_ok_iff.mp h
    obtain ⟨-, h⟩ := Except.check_bind_eq_ok_iff.mp h
    have htext := List.eq_append_of_splitOnce? (Except.okOr_eq_ok_iff.mp hsplit)
    have hvalues (split : Char) :
        [split].intercalate (((values.splitOn split).map String.ofList).map String.toList) = values := by
      rw [List.map_map, show String.toList ∘ String.ofList = id from funext fun _ ↦ String.toList_ofList,
        List.map_id, List.intercalate_splitOn]
    refine String.toList_inj.mp ?_
    split_ifs at h
    all_goals
      obtain rfl := Except.ok.inj h
      rw [htext, Clause.render]
      simp only [String.toList_append, String.toList_ofList, String.toList_intercalate]
      exact congrArg (attribute_ ++ ['='] ++ ·) (hvalues _) |>.trans (List.append_assoc ..)

/-! ### What is rendered is read back -/

variable {at_ : UInt16} {clause : Clause}

/-- The values of a list of identifiers are split where they were joined. -/
theorem map_splitOn_intercalate {values : List String} (hvalues : ∀ value ∈ values, isIdentifier value = true)
    (hsome : values ≠ []) {split : Char} (hsplit : split ∈ operators) :
    (([split].intercalate (values.map String.toList)).splitOn split).map String.ofList = values := by
  rw [List.splitOn_intercalate split ?_ (mt List.map_eq_nil_iff.mp hsome), List.map_map,
    show String.ofList ∘ String.toList = id from funext fun _ ↦ String.ofList_toList, List.map_id]
  rw [List.forall_mem_map]
  exact fun value hvalue ↦ not_mem_of_isIdentifier (hvalues value hvalue) hsplit

/-- An operator that does not join the values is not among them. -/
theorem not_mem_joined {values : List String} (hvalues : ∀ value ∈ values, isIdentifier value = true)
    {c split : Char} (hc : c ∈ operators) (hne : c ≠ split) :
    c ∉ [split].intercalate (values.map String.toList) := by
  refine List.not_mem_intercalate hne ?_
  rw [List.forall_mem_map]
  exact fun value hvalue ↦ not_mem_of_isIdentifier (hvalues value hvalue) hc

/-- The clause with a lower bound is read back from its text. -/
theorem parseClause_render_atLeast (h : checkClause at_ clause = .ok ()) (hmode : clause.mode = .atLeast) :
    parseClause clause.render = .ok clause := by
  obtain ⟨hname, -, -, hone⟩ := valid_of_checkClause h
  obtain ⟨name, mode, values⟩ := clause
  obtain rfl : mode = .atLeast := hmode
  obtain ⟨value, rfl⟩ := List.length_eq_one_iff.mp (hone rfl)
  have htext : (Clause.render ⟨name, .atLeast, [value]⟩).toList =
      name.toList ++ ('>' :: ['='] ++ value.toList) := by
    simp [Clause.render]
  have hsplit : ['>', '='].splitOnce? (name.toList ++ ('>' :: ['='] ++ value.toList)) =
      some (name.toList, value.toList) :=
    List.splitOnce?_append (not_mem_of_isIdentifier hname (by decide))
  rw [parseClause, htext, hsplit]
  simp only [String.ofList_toList]

/-- Values joined by a character other than `=` are what stands behind the first `=` of the text. -/
theorem parseClause_joined {name : String} {values : List String} {mode : Mode} {split : Char}
    (hname : isIdentifier name = true) (hvalues : ∀ value ∈ values, isIdentifier value = true)
    (hsome : values ≠ []) {text : String}
    (htext : text.toList = name.toList ++ ('=' :: [] ++ [split].intercalate (values.map String.toList)))
    (hmode : mode = .anyOf ∧ split = '|' ∨ mode = .allOf ∧ split = '&' ∧ 2 ≤ values.length) :
    parseClause text = .ok ⟨name, mode, values⟩ := by
  have hsplit : split ∈ operators ∧ '>' ≠ split := by
    rcases hmode with ⟨-, rfl⟩ | ⟨-, rfl, -⟩ <;> decide
  -- no operator occurs in an identifier, so each one is found where it was written
  have hgreater : '>' ∉ text.toList := by
    rw [htext, List.mem_append, List.mem_append, not_or, not_or]
    exact ⟨not_mem_of_isIdentifier hname (by decide), by decide,
      not_mem_joined hvalues (by decide) hsplit.2⟩
  have hequals : ['='].splitOnce? text.toList =
      some (name.toList, [split].intercalate (values.map String.toList)) := by
    rw [htext]
    exact List.splitOnce?_append (not_mem_of_isIdentifier hname (by decide))
  have hread := map_splitOn_intercalate hvalues hsome hsplit.1
  rw [parseClause, List.splitOnce?_eq_none hgreater, hequals]
  rcases hmode with ⟨rfl, rfl⟩ | ⟨rfl, rfl, htwo⟩
  · have hno : '&' ∉ ['|'].intercalate (values.map String.toList) :=
      not_mem_joined hvalues (by decide) (by decide)
    simp [hno, hread, Except.refuseIf]
  · have hno : '|' ∉ ['&'].intercalate (values.map String.toList) :=
      not_mem_joined hvalues (by decide) (by decide)
    -- two values have an operator between them
    have hyes : '&' ∈ ['&'].intercalate (values.map String.toList) := by
      rcases values with - | ⟨v, - | ⟨w, rest⟩⟩
      · exact absurd rfl hsome
      · exact absurd htwo (Nat.lt_irrefl _)
      · exact List.mem_intercalate_cons_cons _ _ _
    simp [hno, hyes, hread, Except.refuseIf]

/-- **A condition is read from its rendering**, except for one value of which all are asked. -/
theorem parseClause_render (h : checkClause at_ clause = .ok ())
    (hall : ¬(clause.mode = .allOf ∧ clause.values.length = 1)) :
    parseClause clause.render = .ok clause := by
  obtain ⟨hname, hvalues, hsome, -⟩ := valid_of_checkClause h
  obtain ⟨name, mode, values⟩ := clause
  cases mode with
  | atLeast => exact parseClause_render_atLeast h rfl
  | anyOf =>
    refine parseClause_joined hname hvalues hsome ?_ (.inl ⟨rfl, rfl⟩)
    simp [Clause.render, String.toList_intercalate]
  | allOf =>
    have hpos : 0 < values.length := List.length_pos_iff.mpr hsome
    have htwo : 2 ≤ values.length := by
      have hone : values.length ≠ 1 := fun hone ↦ hall ⟨rfl, hone⟩
      omega
    refine parseClause_joined hname hvalues hsome ?_ (.inr ⟨rfl, rfl, htwo⟩)
    simp [Clause.render, String.toList_intercalate]

/-- Different conditions are signed as different bytes. -/
theorem encodeClause_injective {clause' : Clause} (h : checkClause at_ clause = .ok ())
    (h' : checkClause at_ clause' = .ok ()) (heq : encodeClause clause = encodeClause clause') :
    clause = clause' := by
  obtain ⟨item, hitem, -, hvalues⟩ := exists_encodeClause h
  obtain ⟨-, -, -, hvalues'⟩ := exists_encodeClause h'
  have hread := decodeClause_eq_ok_iff.mpr ⟨hitem, hvalues⟩
  have hread' := decodeClause_eq_ok_iff.mpr ⟨heq ▸ hitem, hvalues'⟩
  exact Except.ok.inj (hread.symm.trans hread')

/-- **The text of conditions is unambiguous.** A condition that passes the check is read back from its
rendering, unless it asks for all of one value; a text is the rendering of what it is read as; and valid texts
are equal if and only if the conditions are, and if and only if the bytes that are signed are. -/
theorem clause_text_unambiguous :
    (∀ at_ clause, checkClause at_ clause = .ok () → ¬(clause.mode = .allOf ∧ clause.values.length = 1) →
      parseClause clause.render = .ok clause) ∧
    (∀ at_ text clause, parseClause text = .ok clause → checkClause at_ clause = .ok () →
      clause.render = text) ∧
    ∀ at_ text text' clause clause', parseClause text = .ok clause → parseClause text' = .ok clause' →
      checkClause at_ clause = .ok () → checkClause at_ clause' = .ok () →
        (text = text' ↔ clause = clause') ∧ (text = text' ↔ encodeClause clause = encodeClause clause') := by
  refine ⟨fun _ _ h hall ↦ parseClause_render h hall, fun _ _ _ h _ ↦ render_of_parseClause h,
    fun at_ text text' clause clause' htext htext' hcheck hcheck' ↦ ?_⟩
  have hiff : text = text' ↔ clause = clause' := by
    constructor
    · intro heq
      exact Except.ok.inj (htext.symm.trans (heq ▸ htext'))
    · intro heq
      rw [← render_of_parseClause htext, ← render_of_parseClause htext', heq]
  refine ⟨hiff, hiff.trans ⟨congrArg encodeClause, fun heq ↦ encodeClause_injective hcheck hcheck' heq⟩⟩

/-- Two values of which any satisfies, as they are typed and read. -/
theorem clause_text_unambiguous_anyOf :
    parseClause "dept=legal|audit" = .ok ⟨"dept", .anyOf, ["legal", "audit"]⟩ ∧
      (⟨"dept", .anyOf, ["legal", "audit"]⟩ : Clause).render = "dept=legal|audit" := by
  have hcheck : checkClause Tag.clauses ⟨"dept", .anyOf, ["legal", "audit"]⟩ = .ok () := by decide
  have hparse := clause_text_unambiguous.1 Tag.clauses _ hcheck (by decide)
  have hrender : (⟨"dept", .anyOf, ["legal", "audit"]⟩ : Clause).render = "dept=legal|audit" := by decide
  exact ⟨hrender ▸ hparse, hrender⟩

end OpenCrate.Protocol.AttributeRule
