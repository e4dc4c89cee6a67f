import ScriptBundler.Script.Grammar.Statement
import ScriptBundler.Proofs.Script.Plain

/-!
# Every rule reads plainly without types

Each rule of the grammar gives plain trees in a dialect without types if the rules that it calls by their goals do
(`rules_plainly`, by induction on how deep rules lie inside one another).

What stands between the rules and a mark is one question.  Imports, exports and their items are marked only where there
are types: behind a question for types, or for a word that marks them, a proof follows the answer `false` alone
(`usesTypes_bind`, `marksTypes_bind`).  No other rule marks anything.  One that reads one thing after another is gone
through reading by reading, until what is given is put together from parts known to be plain.  One that chooses among
many alternatives is left to `mvcgen`, which goes through every alternative with the lemmas on the rules called there.
-/

open Std.Do

set_option mvcgen.warning false

namespace ScriptBundler.Script.Grammar

variable {sub : Rules}

/-! ### Imports and exports -/

private theorem listed_plainly : Plainly listed := by
  unfold listed
  refine any_bind fun first => usesTypes_bind ?_
  rw [Bool.false_and, if_neg Bool.false_ne_true]
  refine any_bind fun renamed => ?_
  split
  · exact any_bind fun name => pure_plainly ⟨rfl, plain_word name⟩
  · exact pure_plainly ⟨rfl, plain_word first⟩

private theorem importedName_plainly : Plainly importedName := by
  unfold importedName
  refine bind_plainly listed_plainly fun ⟨binding, name⟩ item_plain => ?_
  cases name with
  | none => exact fail_plainly
  | some word =>
    dsimp only
    split
    · exact fail_plainly
    · exact pure_plainly item_plain.1

private theorem importList_plainly : Plainly importList := by
  unfold importList
  refine any_bind fun star => ?_
  split
  · exact any_bind fun _ => any_bind fun _ => pure_plainly (plain_cons.2 ⟨rfl, plain_nil⟩)
  · exact any_bind fun _ => bind_plainly (closedItems_plainly "\x7d" importedName_plainly) fun items items_plain =>
      pure_plainly items_plain.1

/-- No word marks an import as one of types where there are none. -/
private theorem marksTypes_bind {α : Type} [Markable α] (word : Option String) {f : Bool → Reading α}
    (k : Plainly (f false)) : Plainly (marksTypes word >>= f) := by
  refine false_bind (fun c here untyped => ?_) k
  show (if !c.dialect.types || word != some "type" then (return false : Reading Bool) else _) c here = _
  rw [untyped]
  rfl

@[spec] private theorem importDeclaration_plainly : Plainly importDeclaration := by
  unfold importDeclaration
  refine any_bind fun _ => any_bind fun word => marksTypes_bind word (any_bind fun marked => any_bind fun name =>
    usesTypes_bind (any_bind fun equals => ?_))
  rw [Bool.and_false, Bool.false_and, if_neg Bool.false_ne_true]
  -- what follows unless the declaration asks for its request alone
  extract_lets naming
  have naming_plainly u : Plainly (naming u) := by
    refine bind_plainly (r := if name.isSome = true then _ else importList) ?_ fun bindings bindings_plain => ?_
    · split
      · refine any_bind fun comma => ?_
        split
        · exact bind_plainly importList_plainly fun more more_plain => pure_plainly (plain_cons.2 ⟨rfl, more_plain⟩)
        · exact pure_plainly (plain_cons.2 ⟨rfl, plain_nil⟩)
      · exact importList_plainly
    · exact any_bind fun request => any_bind fun _ => pure_plainly ⟨⟨rfl, plain_some.2 bindings_plain⟩, trivial⟩
  split
  · refine any_bind fun quoted => ?_
    split
    · exact any_bind fun request => any_bind fun _ => any_bind fun _ => pure_plainly ⟨⟨rfl, plain_none⟩, trivial⟩
    · exact naming_plainly ()
  · exact naming_plainly ()

@[spec] private theorem exportList_plainly (typeOnly : Bool) (k : typeOnly = false) : Plainly (exportList typeOnly) := by
  unfold exportList
  refine any_bind fun _ => bind_plainly (closedItems_plainly "\x7d" listed_plainly) fun items items_plain => ?_
  refine any_bind fun source => any_bind fun _ => pure_plainly ⟨k, fun binding mem => ?_⟩
  obtain ⟨item, item_mem, rfl⟩ := List.mem_map.1 mem
  exact (items_plain.1 item item_mem).1

@[spec] private theorem exportAll_plainly (typeOnly : Bool) (k : typeOnly = false) : Plainly (exportAll typeOnly) := by
  unfold exportAll
  refine any_bind fun _ => any_bind fun renamed => ?_
  extract_lets source
  have source_plainly u : Plainly (source u) := any_bind fun request => any_bind fun _ => pure_plainly k
  split
  · exact any_bind fun _ => source_plainly ()
  · exact source_plainly ()

/-! ### Parts read by another rule -/

@[spec] private theorem templateParts_plainly {r : Reading Node} (k : Plainly r) : Plainly (templateParts r) := by
  mvcgen -leave [templateParts, k] <;> simp_all

private theorem typesJoinedBy_plainly (mark : String) {r : Reading Node} (k : Plainly r) :
    Plainly (typesJoinedBy mark r) := by
  unfold typesJoinedBy
  refine any_bind fun _ => bind_plainly k fun first first_plain => ?_
  refine bind_plainly (repeated_plainly (any_bind (someIf_plainly k))) fun more more_plain => pure_plainly ?_
  simp_all

/-! ### Names and bindings -/

section
variable (h : ∀ goal, Plainly (sub goal))
include h

private theorem computedName_plainly : Plainly (computedName sub) := by
  unfold computedName
  exact any_bind fun _ => bind_plainly (inBrackets_plainly (h _)) fun key key_plain => any_bind fun _ => pure_plainly key_plain

@[spec] private theorem memberName_plainly : Plainly (memberName sub) := by
  unfold memberName
  refine any_bind fun token => ?_
  split
  case h_5 =>
    exact bind_plainly (computedName_plainly h) fun key key_plain => pure_plainly (plain_cons.2 ⟨key_plain, plain_nil⟩)
  case h_6 => exact fail_plainly
  all_goals exact any_bind fun _ => pure_plainly plain_nil

omit h in
/-- Where there are no types, none stands behind a colon. -/
@[spec] private theorem typeBehindColon_plainly : Plainly (typeBehindColon sub) := by
  unfold typeBehindColon
  exact usesTypes_bind (any_bind fun _ => pure_plainly plain_nil)

@[spec] private theorem initializer_plainly : Plainly (initializer sub) :=
  optional_plainly _ (under_plainly (h _) _ fun _ => rfl)

private theorem patternWithFallback_plainly (mayBeMissing : Bool) :
    Plainly (patternWithFallback sub mayBeMissing) := by
  unfold patternWithFallback
  refine bind_plainly (h .pattern) fun target target_plain => ?_
  refine usesTypes_bind ?_
  rw [Bool.and_false, if_neg Bool.false_ne_true]
  refine bind_plainly typeBehindColon_plainly fun type type_plain => ?_
  refine bind_plainly (initializer_plainly h) fun fallback fallback_plain => pure_plainly ?_
  simp_all

private theorem restPattern_plainly : Plainly (restPattern sub) := by
  unfold restPattern
  refine any_bind fun _ => bind_plainly (h .pattern) fun target target_plain => ?_
  refine bind_plainly typeBehindColon_plainly fun type type_plain => ?_
  refine bind_plainly (initializer_plainly h) fun fallback fallback_plain => pure_plainly ?_
  simp_all

private theorem memberPattern_plainly : Plainly (memberPattern sub) := by
  unfold memberPattern
  refine any_bind fun named => bind_plainly (memberName_plainly h) fun key key_plain => any_bind fun colon => ?_
  split
  · exact bind_plainly (initializer_plainly h) fun fallback fallback_plain => pure_plainly (by simpa using fallback_plain)
  · refine any_bind fun _ => bind_plainly (patternWithFallback_plainly h false) fun target target_plain => pure_plainly ?_
    simp_all

private theorem pattern_plainly : Plainly (pattern sub) := by
  unfold pattern
  refine any_bind fun brace => ?_
  split
  · exact bind_plainly
      (inBrackets_plainly (closedItemsWithRest_plainly "\x7d" (memberPattern_plainly h) (restPattern_plainly h)))
      fun members members_plain => pure_plainly (by simpa using members_plain)
  · refine any_bind fun bracket => ?_
    split
    · refine bind_plainly (inBrackets_plainly (closedItemsWithRest_plainly "]" ?_ (restPattern_plainly h)))
        fun items items_plain => pure_plainly (by simpa using items_plain)
      refine any_bind fun comma => ?_
      split
      · exact pure_plainly plain_leaf
      · exact patternWithFallback_plainly h false
    · exact any_bind fun _ => pure_plainly plain_leaf

@[spec] private theorem decorators_plainly : Plainly (decorators sub) := by
  unfold decorators
  exact repeated_plainly (any_bind (someIf_plainly (under_plainly (h .chain) _ fun _ => rfl)))

private theorem parameter_plainly : Plainly (parameter sub) := by
  unfold parameter
  refine bind_plainly (decorators_plainly h) fun marks marks_plain => any_bind fun _ => ?_
  refine bind_plainly (patternWithFallback_plainly h true) fun target target_plain => pure_plainly ?_
  simp_all

private theorem restParameter_plainly : Plainly (restParameter sub) := restPattern_plainly h

private theorem parameters_plainly : Plainly (parameters sub) := by
  unfold parameters
  refine any_bind fun _ => bind_plainly (usesTypes_bind (any_bind fun receiver => ?_)) fun receiver receiver_plain => ?_
  · exact pure_plainly plain_nil
  · refine bind_plainly
      (inBrackets_plainly (closedItemsWithRest_plainly ")" (parameter_plainly h) (restParameter_plainly h)))
      fun items items_plain => pure_plainly (plain_append.2 ⟨receiver_plain, items_plain⟩)

/-! ### Types -/

private theorem typeArguments_plainly : Plainly (typeArguments sub) := by
  unfold typeArguments
  exact any_bind fun _ => any_bind fun _ =>
    bind_plainly (inTypeBrackets_plainly (closedItems_plainly ">" (h .type))) fun items items_plain =>
      pure_plainly items_plain.1

@[spec] private theorem typeArgumentsOnLine_plainly : Plainly (typeArgumentsOnLine sub) := by
  unfold typeArgumentsOnLine
  refine any_bind fun broken => any_bind fun opens => ?_
  split
  · exact typeArguments_plainly h
  · exact pure_plainly plain_nil

omit h in
@[spec] private theorem typeParameters_plainly : Plainly (typeParameters sub) := by
  unfold typeParameters
  exact usesTypes_bind (any_bind fun _ => pure_plainly plain_nil)

private theorem typeOrPredicate_plainly : Plainly (typeOrPredicate sub) := by
  unfold typeOrPredicate
  exact any_bind fun _ => h .type

omit h in
private theorem resultType_plainly (mark : String) : Plainly (resultType sub mark) := by
  unfold resultType
  exact usesTypes_bind (any_bind fun _ => pure_plainly plain_nil)

@[spec] private theorem typeReference_plainly : Plainly (typeReference sub) := by
  unfold typeReference
  exact any_bind fun _ => bind_plainly (typeArgumentsOnLine_plainly h) fun types types_plain =>
    pure_plainly (by simpa using types_plain)

omit h in
@[spec] private theorem indexMember_plainly : Plainly (indexMember sub) := by
  unfold indexMember
  refine any_bind fun _ => bind_plainly (inTypeBrackets_plainly (closedItems_plainly "]" ?_)) fun items items_plain => ?_
  · exact any_bind fun _ => any_bind fun _ => bind_plainly typeBehindColon_plainly fun type type_plain =>
      pure_plainly (by simpa using type_plain)
  · refine bind_plainly typeBehindColon_plainly fun type type_plain => any_bind fun _ => pure_plainly ?_
    simp_all

@[spec] private theorem signature_plainly : Plainly (signature sub) := by
  unfold signature
  refine bind_plainly typeParameters_plainly fun names names_plain => ?_
  refine bind_plainly (parameters_plainly h) fun items items_plain => ?_
  exact bind_plainly (resultType_plainly ":") fun result result_plain =>
    pure_plainly (plain_append.2 ⟨plain_append.2 ⟨names_plain, items_plain⟩, result_plain⟩)

private theorem typeMember_plainly : Plainly (typeMember sub) := by
  mvcgen -leave [typeMember, h] <;> simp_all

@[spec] private theorem typeMembers_plainly : Plainly (typeMembers sub) := by
  unfold typeMembers
  exact any_bind fun _ =>
    bind_plainly (inTypeBrackets_plainly (repeated_plainly (any_bind (someUnless_plainly (typeMember_plainly h)))))
      fun members members_plain => any_bind fun _ => pure_plainly (by simpa using members_plain)

@[spec] private theorem mappedType_plainly : Plainly (mappedType sub) := by
  mvcgen -leave [mappedType, h] <;> simp_all

@[spec] private theorem tupleItem_plainly : Plainly (tupleItem sub) := by
  unfold tupleItem
  refine any_bind fun named => ?_
  extract_lets item
  have item_plainly u : Plainly (item u) :=
    any_bind fun _ => bind_plainly (h .type) fun type type_plain => any_bind fun _ => pure_plainly type_plain
  split
  · exact any_bind fun _ => any_bind fun _ => any_bind fun _ => any_bind fun u => item_plainly u
  · exact item_plainly ()

@[spec] private theorem importedType_plainly : Plainly (importedType sub) := by
  unfold importedType
  refine any_bind fun _ => any_bind fun _ => bind_plainly (inTypeBrackets_plainly (h .type)) fun request request_plain => ?_
  refine bind_plainly ?_ fun options (options_plain : plain options) => ?_
  · refine any_bind fun comma => ?_
    split
    · refine any_bind fun closed => ?_
      split
      · exact pure_plainly plain_nil
      · exact bind_plainly (inBrackets_plainly (h (.assignment true))) fun value value_plain => any_bind fun _ =>
          pure_plainly (plain_cons.2 ⟨value_plain, plain_nil⟩)
    · exact pure_plainly plain_nil
  · refine any_bind fun _ => any_bind fun dot => ?_
    extract_lets applied
    have applied_plainly u : Plainly (applied u) :=
      bind_plainly (typeArgumentsOnLine_plainly h) fun types types_plain => pure_plainly (by simp_all)
    split
    · exact any_bind fun _ => applied_plainly ()
    · exact applied_plainly ()

private theorem functionType_plainly : Plainly (functionType sub) := by
  unfold functionType
  refine any_bind fun _ => any_bind fun _ => bind_plainly typeParameters_plainly fun names names_plain => ?_
  refine bind_plainly (parameters_plainly h) fun items items_plain => any_bind fun _ => ?_
  refine bind_plainly (typeOrPredicate_plainly h) fun result result_plain => pure_plainly ?_
  simp_all

@[spec] private theorem simpleType_plainly : Plainly (simpleType sub) := by
  mvcgen -leave [simpleType, h] <;> simp_all

private theorem postfixType_plainly : Plainly (postfixType sub) := by
  mvcgen -leave [postfixType, h] <;> simp_all

private theorem typeOperand_plainly : Plainly (typeOperand sub) := by
  unfold typeOperand
  refine any_bind fun worded => ?_
  split
  · exact any_bind fun _ => h .typeOperand
  · refine any_bind fun infers => ?_
    split
    · refine any_bind fun _ => any_bind fun _ => bind_plainly (attempt_plainly (any_bind fun _ => ?_))
        fun bound bound_plain => pure_plainly (by simpa using bound_plain)
      refine bind_plainly (underExtends_plainly (h .type)) fun bound bound_plain => any_bind fun c => any_bind fun tested => ?_
      split
      · exact pure_plainly bound_plain
      · exact fail_plainly
    · exact under_plainly (postfixType_plainly h) _ fun _ => rfl

private theorem unionType_plainly : Plainly (unionType sub) :=
  typesJoinedBy_plainly "|" (typesJoinedBy_plainly "&" (h .typeOperand))

@[spec] private theorem type_plainly : Plainly (type sub) := by
  unfold type
  refine any_bind fun function => ?_
  split
  · exact functionType_plainly h
  · refine bind_plainly (unionType_plainly h) fun tested tested_plain => any_bind fun c => any_bind fun broken =>
      any_bind fun extends_ => ?_
    split
    · exact pure_plainly tested_plain
    · refine any_bind fun _ => bind_plainly (underExtends_plainly (h .type)) fun pattern pattern_plain => ?_
      refine any_bind fun _ => bind_plainly (under_plainly (h .type) _ fun _ => rfl) fun yes yes_plain => ?_
      refine any_bind fun _ => bind_plainly (under_plainly (h .type) _ fun _ => rfl) fun no no_plain => pure_plainly ?_
      simp_all

omit h in
/-- Where there are no types, nothing is applied to any. -/
@[spec] private theorem typeArgumentsInExpression_plainly : Plainly (typeArgumentsInExpression sub) := by
  unfold typeArgumentsInExpression
  exact usesTypes_bind fail_plainly

/-! ### Functions, objects and classes -/

private theorem statementsToBrace_plainly : Plainly (statementsToBrace sub) := by
  unfold statementsToBrace
  refine bind_plainly (repeated_plainly (any_bind fun closed => any_bind fun ended => ?_)) fun items items_plain =>
    any_bind fun _ => pure_plainly items_plain
  exact someUnless_plainly (h (.statement false)) _

@[spec] private theorem block_plainly : Plainly (block sub) := by
  unfold block
  exact any_bind fun _ => bind_plainly (statementsToBrace_plainly h) fun items items_plain =>
    pure_plainly (by simpa using items_plain)

@[spec] private theorem callable_plainly (isAsync isGenerator : Bool) : Plainly (callable sub isAsync isGenerator) := by
  unfold callable
  refine inFunction_plainly (bind_plainly (signature_plainly h) fun head head_plain => any_bind fun opens => ?_) _ _
  split
  · exact bind_plainly (block_plainly h) fun body body_plain => pure_plainly (by simp_all)
  · exact usesTypes_bind fail_plainly

@[spec] private theorem function_plainly (isAsync : Bool) : Plainly (function sub isAsync) := by
  unfold function
  refine any_bind fun _ => any_bind fun isGenerator => any_bind fun named => ?_
  split
  · exact any_bind fun _ => callable_plainly h isAsync isGenerator
  · exact callable_plainly h isAsync isGenerator

private theorem objectMember_plainly : Plainly (objectMember sub) := by
  mvcgen -leave [objectMember, h] <;> simp_all

@[spec] private theorem object_plainly : Plainly (object sub) := by
  unfold object
  exact any_bind fun _ => bind_plainly (inBrackets_plainly (closedItems_plainly "\x7d" (objectMember_plainly h)))
    fun items items_plain => pure_plainly (by simpa using items_plain.1)

@[spec] private theorem array_plainly : Plainly (array sub) := by
  unfold array
  refine any_bind fun _ => bind_plainly (inBrackets_plainly (closedItems_plainly "]" (any_bind fun comma => ?_)))
    fun items items_plain => pure_plainly (by simpa using items_plain.1)
  split
  · exact pure_plainly trivial
  · refine any_bind fun gathers => ?_
    split
    · exact bind_plainly (h (.assignment true)) fun value value_plain => pure_plainly (by simpa using value_plain)
    · exact h (.assignment true)

@[spec] private theorem classMember_plainly : Plainly (classMember sub) := by
  mvcgen -leave [classMember, h] <;> simp_all

private theorem parent_plainly : Plainly (parent sub) := by
  unfold parent
  refine bind_plainly (h .chain) fun above above_plain => ?_
  split
  · exact pure_plainly (by simpa using above_plain)
  · exact bind_plainly (typeArgumentsOnLine_plainly h) fun types types_plain =>
      pure_plainly (plain_cons.2 ⟨above_plain, types_plain⟩)

@[spec] private theorem heritage_plainly : Plainly (heritage sub) := by
  unfold heritage
  refine bind_plainly (repeated_plainly (any_bind fun extends_ => ?_)) fun clauses clauses_plain =>
    pure_plainly (plain_foldl clauses_plain)
  split
  · exact bind_plainly (separated_plainly (parent_plainly h)) fun parents parents_plain =>
      pure_plainly (plain_some.2 fun above above_plain => ⟨parents_plain, above_plain.2⟩)
  · exact usesTypes_bind (any_bind fun _ => pure_plainly plain_none)

@[spec] private theorem classDefinition_plainly : Plainly (classDefinition sub) := by
  mvcgen -leave [classDefinition, h] <;> simp_all [plain_getD, plain_head?]

/-! ### Markup -/

private theorem inserted_plainly (close : Reading Unit) : Plainly (inserted sub close) := by
  unfold inserted
  exact bind_plainly (inBrackets_plainly (h (.assignment true))) fun value value_plain => any_bind fun _ =>
    pure_plainly value_plain

private theorem insertion_plainly (close : Reading Unit) : Plainly (insertion sub close) := by
  unfold insertion
  refine any_bind fun closed => ?_
  split
  · exact any_bind fun _ => pure_plainly plain_leaf
  · exact inserted_plainly h close

private theorem attributeValue_plainly : Plainly (attributeValue sub) := by
  unfold attributeValue
  refine any_bind fun token => ?_
  split
  · exact any_bind fun _ => pure_plainly plain_leaf
  · exact any_bind fun _ => insertion_plainly h _
  · exact any_bind fun _ => h (.tag false)
  · exact fail_plainly

private theorem attributeAssignment_plainly : Plainly (attributeAssignment sub) := by
  unfold attributeAssignment
  refine any_bind fun here => ?_
  split
  · split
    · dsimp only
      split
      · exact fail_plainly
      · exact any_bind fun _ => any_bind fun _ => pure_plainly plain_leaf
    · exact any_bind fun _ => attributeValue_plainly h
  · exact fail_plainly

@[spec] private theorem attributes_plainly : Plainly (attributes sub) := by
  unfold attributes
  refine repeated_plainly (any_bind fun slash => any_bind fun closed => any_bind fun ended => ?_)
  split
  · exact pure_plainly plain_none
  · refine any_bind fun brace => ?_
    split
    · exact any_bind fun _ => bind_plainly (inserted_plainly h _) fun value value_plain =>
        pure_plainly (plain_some.2 value_plain)
    · refine any_bind fun _ => any_bind fun space => ?_
      extract_lets named
      have named_plainly u : Plainly (named u) := by
        refine any_bind fun assigned => ?_
        split
        · exact bind_plainly (attributeAssignment_plainly h) fun value value_plain => pure_plainly (plain_some.2 value_plain)
        · exact pure_plainly (plain_some.2 plain_leaf)
      split
      · exact any_bind fun u => named_plainly u
      · exact named_plainly ()

@[spec] private theorem content_plainly : Plainly (content sub) := by
  unfold content
  refine repeated_plainly (any_bind fun token => ?_)
  split
  · refine any_bind fun _ => any_bind fun closes => ?_
    exact someUnless_plainly (h (.tag true)) _
  · refine any_bind fun _ => ?_
    extract_lets close
    refine any_bind fun gathers => ?_
    split
    · exact bind_plainly (inserted_plainly h close) fun value value_plain => pure_plainly (plain_some.2 value_plain)
    · exact bind_plainly (insertion_plainly h close) fun value value_plain => pure_plainly (plain_some.2 value_plain)
  · exact any_bind fun _ => pure_plainly (plain_some.2 plain_leaf)
  · exact fail_plainly

private theorem tag_plainly (inTag : Bool) : Plainly (tag sub inTag) := by
  mvcgen -leave [tag, h] <;> simp_all

/-! ### Expressions -/

@[spec] private theorem expression_plainly : Plainly (expression sub) := by
  unfold expression
  refine bind_plainly (separated_plainly (h (.assignment true))) fun parts parts_plain => ?_
  split
  · exact pure_plainly (plain_cons.1 parts_plain).1
  · exact pure_plainly (by simpa using parts_plain)

@[spec] private theorem parenthesized_plainly : Plainly (parenthesized sub) := by
  unfold parenthesized
  refine any_bind fun _ => bind_plainly (inBrackets_plainly (itemsUpTo_plainly ")" (h (.assignment true))))
    fun ⟨items, trailing⟩ ⟨items_plain, _⟩ => ?_
  refine failIf_plainly trailing fun _ => ?_
  split
  · exact fail_plainly
  · exact any_bind fun _ => pure_plainly (plain_cons.1 items_plain).1
  · exact any_bind fun _ => pure_plainly (by simpa using items_plain)

@[spec] private theorem lazyLoad_plainly : Plainly (lazyLoad sub) := by
  unfold lazyLoad
  refine any_bind fun _ => any_bind fun empty => failIf_plainly empty fun _ => ?_
  refine bind_plainly (inBrackets_plainly (bind_plainly (h (.assignment true)) fun request request_plain =>
    any_bind fun comma => any_bind fun closed => ?_)) fun parts (parts_plain : plain parts) =>
      any_bind fun _ => pure_plainly (by simpa using parts_plain)
  split
  · exact bind_plainly (h (.assignment true)) fun options options_plain => any_bind fun _ => pure_plainly (by simp_all)
  · exact pure_plainly (plain_cons.2 ⟨request_plain, plain_nil⟩)

private theorem arguments_plainly : Plainly (arguments sub) := by
  unfold arguments
  refine any_bind fun _ => bind_plainly (inBrackets_plainly (closedItems_plainly ")" (any_bind fun gathers => ?_)))
    fun items items_plain => pure_plainly items_plain.1
  split
  · exact bind_plainly (h (.assignment true)) fun value value_plain => pure_plainly (by simpa using value_plain)
  · exact h (.assignment true)

@[spec] private theorem template_plainly : Plainly (template sub) :=
  inBrackets_plainly (templateParts_plainly (expression_plainly h))

@[spec] private theorem construction_plainly : Plainly (construction sub) := by
  unfold construction
  refine any_bind fun _ => any_bind fun dot => ?_
  split
  · exact any_bind fun _ => pure_plainly plain_leaf
  · refine bind_plainly (h .constructed) fun callee callee_plain => bind_plainly ?_ fun items (items_plain : plain items) =>
      pure_plainly (by simp_all)
    refine any_bind fun opens => ?_
    split
    · exact arguments_plainly h
    · exact pure_plainly plain_nil

@[spec] private theorem value_plainly : Plainly (value sub) := by
  mvcgen -leave [value, h] <;> simp_all

private theorem memberStep_plainly (chain : Chain) (k : plain chain) : Plainly (memberStep sub chain) := by
  mvcgen -leave [memberStep, h] <;> simp_all +zetaDelta

/-- The values and members that a chain starts with. -/
private theorem members_plainly (chain : Chain) (k : plain chain) : Plainly (iterated (memberStep sub) chain) :=
  iterated_plainly (memberStep_plainly h) chain k

private theorem constructed_plainly : Plainly (constructed sub) := by
  unfold constructed
  refine bind_plainly (value_plainly h) fun first first_plain => ?_
  exact bind_plainly (members_plainly h ⟨first, false⟩ first_plain) fun chain chain_plain => pure_plainly chain_plain

private theorem callStep_plainly (chain : Chain) (k : plain chain) : Plainly (callStep sub chain) := by
  unfold callStep
  refine any_bind fun optional => ?_
  split
  · refine bind_plainly (usesTypes_bind (any_bind fun opens => ?_)) fun types types_plain => any_bind fun templated => ?_
    · exact pure_plainly plain_nil
    · split
      · exact bind_plainly (template_plainly h) fun parts parts_plain => pure_plainly (by simp_all)
      · refine bind_plainly (arguments_plainly h) fun items items_plain => ?_
        exact bind_plainly (members_plainly h _ (by simp_all)) fun chain chain_plain => pure_plainly (plain_some.2 chain_plain)
  · refine any_bind fun opens => ?_
    split
    · exact pure_plainly plain_none
    · refine bind_plainly ?_ fun call (call_plain : plain call) => ?_
      · split
        · exact bind_plainly (arguments_plainly h) fun items items_plain => pure_plainly (by simp_all)
        · exact bind_plainly (arguments_plainly h) fun items items_plain => pure_plainly (by simp_all)
      · exact bind_plainly (members_plainly h _ call_plain) fun chain chain_plain => pure_plainly (plain_some.2 chain_plain)

@[spec] private theorem chain_plainly : Plainly (chain sub) := by
  unfold chain
  refine bind_plainly (value_plainly h) fun first first_plain => ?_
  refine bind_plainly (members_plainly h ⟨first, false⟩ first_plain) fun members members_plain => ?_
  refine bind_plainly (iterated_plainly (callStep_plainly h) members members_plain) fun calls calls_plain => pure_plainly ?_
  split <;> simp_all

private theorem operand_plainly : Plainly (operand sub) := by
  mvcgen -leave [operand, h] <;> simp_all

private theorem operatorStep_plainly (level : Nat) (left : Node) (k : plain left) :
    Plainly (operatorStep sub level left) := by
  unfold operatorStep
  refine any_bind fun _ => any_bind fun token => usesTypes_bind ?_
  rw [Bool.false_and, if_neg Bool.false_ne_true]
  split
  · exact pure_plainly plain_none
  · split
    · exact pure_plainly plain_none
    · refine any_bind fun c => ?_
      split
      · exact pure_plainly plain_none
      · exact any_bind fun _ => bind_plainly (h (.binary _)) fun right right_plain => pure_plainly (by simp_all)

private theorem binary_plainly (level : Nat) : Plainly (binary sub level) := by
  unfold binary
  refine bind_plainly ?_ (iterated_plainly (operatorStep_plainly h level))
  refine any_bind fun token => ?_
  split
  · exact any_bind fun _ => any_bind fun _ => bind_plainly (h (.binary 8)) fun right right_plain =>
      pure_plainly (by simpa using right_plain)
  · exact h .operand

private theorem arrowHead_plainly : Plainly (arrowHead sub) := by
  unfold arrowHead
  refine any_bind fun isAsync => bind_plainly (under_plainly ?_ _ fun _ => rfl) fun head head_plain => ?_
  · exact bind_plainly typeParameters_plainly fun names names_plain => bind_plainly (parameters_plainly h)
      fun items items_plain => pure_plainly ⟨names_plain, items_plain⟩
  · refine bind_plainly (resultType_plainly ":") fun result result_plain => any_bind fun _ => pure_plainly ?_
    simp_all

@[spec] private theorem arrowBody_plainly (isAsync mayStateResult : Bool) :
    Plainly (arrowBody sub isAsync mayStateResult) := by
  unfold arrowBody
  refine any_bind fun opens => ?_
  split
  · exact inFunction_plainly (block_plainly h) isAsync false
  · exact under_plainly (h (.assignment mayStateResult)) _ fun _ => rfl

@[spec] private theorem arrowInParentheses?_plainly (mayStateResult : Bool) :
    Plainly (arrowInParentheses? sub mayStateResult) := by
  unfold arrowInParentheses?
  refine any_bind fun guess => ?_
  split
  · exact pure_plainly plain_none
  · refine bind_plainly (arrowHead_plainly h) fun head head_plain => ?_
    exact bind_plainly (arrowBody_plainly h _ _) fun body body_plain => pure_plainly (by simp_all)
  · refine any_bind fun start => bind_plainly (attempt_plainly (arrowHead_plainly h)) fun head head_plain => ?_
    cases head with
    | none => exact pure_plainly plain_none
    | some head =>
      refine bind_plainly (arrowBody_plainly h _ _) fun body body_plain => any_bind fun colon => ?_
      split
      · exact any_bind fun _ => pure_plainly plain_none
      · exact pure_plainly (by simp_all)

@[spec] private theorem yielded_plainly : Plainly (yielded sub) := by
  unfold yielded
  refine any_bind fun _ => any_bind fun broken => ?_
  split
  · exact pure_plainly plain_leaf
  · refine any_bind fun delegates => ?_
    extract_lets delegated
    have delegated_plainly u : Plainly (delegated u) :=
      bind_plainly (h (.assignment true)) fun value value_plain => pure_plainly (by simpa using value_plain)
    split
    · refine any_bind fun ended => any_bind fun closed => any_bind fun ranges => ?_
      split
      · exact pure_plainly plain_leaf
      · exact delegated_plainly ()
    · exact delegated_plainly ()

/-- What is assigned to is plain if what was read there is. -/
private theorem assignment_plainly (mayStateResult : Bool) : Plainly (assignment sub mayStateResult) := by
  mvcgen -leave [assignment, h] <;> simp_all
  exact Node.Plain.of_asTarget? (by assumption) (by simp_all)

/-! ### Declarations -/

private theorem declarator_plainly : Plainly (declarator sub) := by
  unfold declarator
  refine bind_plainly (h .pattern) fun target target_plain => usesTypes_bind (any_bind fun broken => ?_)
  rw [Bool.false_and, if_neg Bool.false_ne_true]
  refine bind_plainly typeBehindColon_plainly fun type type_plain => ?_
  exact bind_plainly (optional_plainly _ (h (.assignment true))) fun value value_plain => pure_plainly (by simp_all)

@[spec] private theorem declarators_plainly : Plainly (declarators sub) := by
  unfold declarators
  exact bind_plainly (separated_plainly (declarator_plainly h)) fun items items_plain =>
    pure_plainly (by simpa using items_plain)

@[spec] private theorem valueDeclaration_plainly : Plainly (valueDeclaration sub) := by
  unfold valueDeclaration
  exact any_bind fun _ => bind_plainly (declarators_plainly h) fun items items_plain => any_bind fun _ =>
    pure_plainly items_plain

@[spec] private theorem interface_plainly : Plainly (interface sub) := by
  unfold interface
  refine any_bind fun _ => any_bind fun _ => bind_plainly typeParameters_plainly fun names names_plain => ?_
  refine bind_plainly (heritage_plainly h) fun above ⟨parents_plain, duties_plain⟩ => ?_
  refine bind_plainly (typeMembers_plainly h) fun members members_plain => pure_plainly ?_
  simp_all [plain_flatten]

@[spec] private theorem typeAlias_plainly : Plainly (typeAlias sub) := by
  unfold typeAlias
  refine any_bind fun _ => any_bind fun _ => bind_plainly typeParameters_plainly fun names names_plain => any_bind fun _ => ?_
  refine bind_plainly (h .type) fun type type_plain => any_bind fun _ => pure_plainly ?_
  simp_all

private theorem enumMember_plainly : Plainly (enumMember sub) := by
  unfold enumMember
  extract_lets value closed
  have value_plainly u : Plainly (value u) :=
    bind_plainly (initializer_plainly h) fun parts parts_plain => pure_plainly (by simpa using parts_plain)
  have closed_plainly u : Plainly (closed u) := any_bind value_plainly
  refine any_bind fun token => ?_
  split
  case h_4 =>
    refine any_bind fun _ => any_bind fun key => ?_
    split <;> exact any_bind closed_plainly
  all_goals exact any_bind value_plainly

@[spec] private theorem enumeration_plainly : Plainly (enumeration sub) := by
  unfold enumeration
  exact any_bind fun _ => any_bind fun _ => any_bind fun _ =>
    bind_plainly (inBrackets_plainly (closedItems_plainly "\x7d" (enumMember_plainly h))) fun items items_plain =>
      pure_plainly (by simpa using items_plain.1)

@[spec] private theorem space_plainly : Plainly (space sub) := by
  unfold space
  refine any_bind fun _ => any_bind fun token => ?_
  extract_lets body
  have body_plainly u : Plainly (body u) := by
    refine any_bind fun opens => ?_
    split
    · exact block_plainly h
    · exact any_bind fun _ => pure_plainly plain_leaf
  split
  · exact any_bind fun u => body_plainly u
  · exact any_bind fun _ => any_bind fun _ => body_plainly ()

@[spec] private theorem declaration_plainly : Plainly (declaration sub) := by
  mvcgen -leave [declaration, h] <;> simp_all

@[spec] private theorem defaultExport_plainly : Plainly (defaultExport sub) := by
  mvcgen -leave [defaultExport, h] <;> simp_all

/-- Only where there are types a word may mark an export as one of types. -/
@[spec] private theorem exported_plainly : Plainly (exported sub) := by
  mvcgen -leave [exported, h] <;> simp_all

/-! ### Statements -/

@[spec] private theorem condition_plainly : Plainly (condition sub) := by
  unfold condition
  exact any_bind fun _ => bind_plainly (inBrackets_plainly (expression_plainly h)) fun test test_plain => any_bind fun _ =>
    pure_plainly test_plain

@[spec] private theorem expressionStatement_plainly : Plainly (expressionStatement sub) := by
  unfold expressionStatement
  refine bind_plainly (expression_plainly h) fun first first_plain => ?_
  extract_lets ended
  have ended_plainly u : Plainly (ended u) := any_bind fun _ => pure_plainly first_plain
  split
  · refine any_bind fun labelled => ?_
    split
    · exact h (.statement true)
    · exact ended_plainly ()
  · exact ended_plainly ()

@[spec] private theorem letStatement_plainly (alone : Bool) : Plainly (letStatement sub alone) := by
  mvcgen -leave [letStatement, h] <;> simp_all

@[spec] private theorem countingLoop_plainly (start : List Node) (k : plain start) :
    Plainly (countingLoop sub start) := by
  unfold countingLoop
  have part := listUnless_plainly (inBrackets_plainly (expression_plainly h))
  refine any_bind fun _ => bind_plainly (any_bind part) fun test test_plain => ?_
  refine any_bind fun _ => bind_plainly (any_bind part) fun step step_plain => ?_
  exact any_bind fun _ => bind_plainly (h (.statement true)) fun body body_plain => pure_plainly (by simp_all)

@[spec] private theorem loopFrom_plainly (start : Node) (asTarget : Node → Option Node) (k : plain start)
    (kt : plain (asTarget start)) : Plainly (loopFrom sub start asTarget) := by
  mvcgen -leave [loopFrom, h] <;> simp_all

@[spec] private theorem forStatement_plainly : Plainly (forStatement sub) := by
  mvcgen -leave [forStatement, h] <;> simp_all [Node.plain_asTarget?]

@[spec] private theorem ifStatement_plainly : Plainly (ifStatement sub) := by
  unfold ifStatement
  refine any_bind fun _ => bind_plainly (condition_plainly h) fun test test_plain => ?_
  refine bind_plainly (h (.statement true)) fun yes yes_plain => ?_
  exact bind_plainly (optional_plainly _ (h (.statement true))) fun no no_plain => pure_plainly (by simp_all)

private theorem case_plainly : Plainly (case sub) := by
  unfold case
  refine bind_plainly (any_bind fun standard => ?_) fun test (test_plain : plain test) => any_bind fun _ => ?_
  · split
    · exact pure_plainly plain_nil
    · exact any_bind fun _ => bind_plainly (inBrackets_plainly (expression_plainly h)) fun test test_plain =>
        pure_plainly (plain_cons.2 ⟨test_plain, plain_nil⟩)
  · refine bind_plainly (repeated_plainly (any_bind fun next => any_bind fun closed => any_bind fun ended => ?_))
      fun items items_plain => pure_plainly (by simp_all)
    exact someUnless_plainly (h (.statement false)) _

@[spec] private theorem switchStatement_plainly : Plainly (switchStatement sub) := by
  unfold switchStatement
  refine any_bind fun _ => bind_plainly (condition_plainly h) fun value value_plain => any_bind fun _ => ?_
  refine bind_plainly (repeated_plainly (any_bind fun closed => any_bind fun ended => ?_)) fun cases cases_plain =>
    any_bind fun _ => pure_plainly (by simp_all)
  exact someUnless_plainly (case_plainly h) _

@[spec] private theorem tryStatement_plainly : Plainly (tryStatement sub) := by
  unfold tryStatement
  refine any_bind fun _ => bind_plainly (block_plainly h) fun body body_plain => ?_
  refine bind_plainly (any_bind fun guards => ?_) fun handler (handler_plain : plain handler) => ?_
  · split
    · refine bind_plainly (any_bind fun binds => ?_) fun caught (caught_plain : plain caught) => ?_
      · split
        · refine bind_plainly (h .pattern) fun target target_plain => ?_
          refine bind_plainly typeBehindColon_plainly fun type type_plain => any_bind fun _ => pure_plainly ?_
          exact plain_cons.2 ⟨target_plain, type_plain⟩
        · exact pure_plainly plain_nil
      · exact bind_plainly (block_plainly h) fun block block_plain => pure_plainly (by simp_all)
    · exact pure_plainly plain_nil
  · exact bind_plainly (optional_plainly _ (block_plainly h)) fun final final_plain => pure_plainly (by simp_all)

omit h in
@[spec] private theorem jump_plainly : Plainly jump := by
  mvcgen -leave [jump] <;> simp_all

@[spec] private theorem handOver_plainly : Plainly (handOver sub) := by
  unfold handOver
  refine any_bind fun _ => any_bind fun alone => ?_
  split
  · exact any_bind fun _ => pure_plainly plain_leaf
  · exact bind_plainly (inBrackets_plainly (expression_plainly h)) fun value value_plain => any_bind fun _ =>
      pure_plainly value_plain

private theorem statement_plainly (alone : Bool) : Plainly (statement sub alone) := by
  mvcgen -leave [statement, h] <;> simp_all

end

/-! ### Whole scripts -/

private theorem rule_plainly (h : ∀ goal, Plainly (sub goal)) (goal : Goal) : Plainly (rule sub goal) := by
  cases goal with
  | assignment mayStateResult => exact assignment_plainly h mayStateResult
  | binary level => exact binary_plainly h level
  | operand => exact operand_plainly h
  | chain => exact chain_plainly h
  | constructed => exact constructed_plainly h
  | pattern => exact pattern_plainly h
  | type => exact type_plainly h
  | typeOperand => exact typeOperand_plainly h
  | statement alone => exact statement_plainly h alone
  | tag inTag => exact tag_plainly h inTag

/-- Every goal is read plainly, however deep rules may lie inside one another. -/
theorem rules_plainly (depth : Nat) (goal : Goal) : Plainly (rules depth goal) := by
  induction depth generalizing goal with
  | zero => exact fail_plainly
  | succ depth ih => exact rule_plainly ih goal

theorem script_plainly (h : ∀ goal, Plainly (sub goal)) : Plainly (script sub) := by
  unfold script
  exact repeated_plainly (any_bind (someUnless_plainly (h (.statement false))))

end ScriptBundler.Script.Grammar
