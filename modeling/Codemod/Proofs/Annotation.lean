import Codemod.Proofs.Passes
import Codemod.Proofs.Scanning

/-!
# Annotated callbacks

A callback rule takes a call whose argument starts with a bare parameter list
and writes it anew with types (`Turned`). A bare call and a typed one never
overlap. A bare call starts with a dot or a dollar sign and has no other, so it
cannot run on into a typed one, which starts like that too. Nor does it start
inside one: it has a parenthesis where the typed one, behind the same two
opening parentheses, has a colon. So one pass finds all that there is to find
(`settled_after_one_pass`), whatever the type is called, as long as it opens no
parenthesis of its own.
-/

namespace Codemod

namespace CallbackRules

open Pattern
open Text (Blank)

-- ---------------------------------------------------------------------------
-- Calls, bare and typed
-- ---------------------------------------------------------------------------

def Word (text : Text) : Prop := text ≠ [] ∧ ∀ c ∈ text, Text.isWord c = true

/-- What stands before the parameter list: nothing, or the mark of an asynchronous callback. -/
def Marked (isAsync : Bool) (mark : Text) : Prop :=
  if isAsync then ∃ blank, Blank blank ∧ mark = "async".toList ++ blank else mark = []

/-- A bare parameter list, and the same list with types. -/
inductive Annotates (type : Text) : (bare typed : Text) → Prop
  | single {before word after : Text} (_ : Blank before) (_ : Word word) (_ : Blank after) :
      Annotates type (before ++ word ++ after) (word ++ ": ".toList ++ type)
  | pair {before first between second after : Text} (_ : Blank before) (_ : Word first)
      (_ : Blank between) (_ : Word second) (_ : Blank after) :
      Annotates type (before ++ first ++ ',' :: between ++ second ++ after)
        (first ++ ": ".toList ++ type ++ ", ".toList ++ second ++ ": ".toList ++ type)

def methods : List String := "$transaction" :: callbacks.map ("." ++ ·.method) ++ [".sort"]

theorem mem_methods {callback : Callback} (mem : callback ∈ callbacks) :
    "." ++ callback.method ∈ methods :=
  List.mem_cons_of_mem _ (List.mem_append_left _ (List.mem_map.mpr ⟨callback, mem, rfl⟩))

/-- A call as a rule finds it, and as the rule writes it anew. -/
inductive Turned (type : Text) : (old new : Text) → Prop
  | call {name : String} {isAsync : Bool} {first second mark bare typed : Text}
      (known : name ∈ methods) (_ : Blank first) (_ : Blank second) (_ : Marked isAsync mark)
      (_ : Annotates type bare typed) :
      Turned type (name.toList ++ first ++ '(' :: second ++ mark ++ '(' :: bare ++ [')'])
        (name.toList ++ (if isAsync then "(async (" else "((").toList ++ typed ++ [')'])

theorem marked_of_reads {isAsync : Bool} {text : Text} {groups : List (Nat × Text)}
    (reads : (inOrder (if isAsync then [literal "async".toList, blanks] else [])).Reads text
      groups) :
    Marked isAsync text ∧ groups = [] := by
  cases isAsync with
  | false => exact reads_inOrder_nil.mp reads
  | true =>
    simp only [if_true, blanks, reads_inOrder_literal, reads_inOrder_anyNumber,
      reads_inOrder_nil] at reads
    obtain ⟨_, rfl, blank, _, rfl, isBlank, rfl, rfl⟩ := reads
    exact ⟨⟨blank, isBlank, by simp⟩, rfl⟩

theorem call_of_reads {name : String} {isAsync : Bool} {parameters : List Pattern} {text : Text}
    {groups : List (Nat × Text)} (reads : (call name isAsync parameters).Reads text groups) :
    ∃ first second mark before list after, Blank first ∧ Blank second ∧ Marked isAsync mark ∧
      Blank before ∧ (inOrder parameters).Reads list groups ∧ Blank after ∧
      text = name.toList ++ first ++ '(' :: second ++ mark ++ '(' :: (before ++ list ++ after) ++
        [')'] := by
  simp only [call, List.append_assoc, List.cons_append, List.nil_append, blanks, openParenthesis,
    closeParenthesis, reads_inOrder_literal, reads_inOrder_single, reads_inOrder_anyNumber,
    reads_inOrder_append, reads_inOrder_nil] at reads
  obtain ⟨_, rfl, first, _, rfl, isBlank₁, _, rfl, second, _, rfl, isBlank₂, mark, _, _, _, rfl,
    rfl, marked, _, rfl, before, _, rfl, isBlank₃, list, _, _, _, rfl, rfl, reads, after, _, rfl,
    isBlank₄, _, rfl, rfl, rfl⟩ := reads
  obtain ⟨isMark, rfl⟩ := marked_of_reads marked
  refine ⟨first, second, mark, before, list, after, isBlank₁, isBlank₂, isMark, isBlank₃, ?_,
    isBlank₄, by simp⟩
  simpa using reads

theorem word_of_reads {index : Nat} {rest : List Pattern} {text : Text} {groups : List (Nat × Text)}
    (reads : (inOrder (parameter index :: rest)).Reads text groups) :
    ∃ word after later, Word word ∧ text = word ++ after ∧ groups = later ++ [(index, word)] ∧
      (inOrder rest).Reads after later := by
  simp only [reads_inOrder_cons, parameter, reads_group, reads_atLeastOne] at reads
  obtain ⟨word, after, _, later, rfl, rfl, ⟨_, ⟨isWord, rfl⟩, rfl⟩, reads⟩ := reads
  exact ⟨word, after, later, isWord, rfl, rfl, reads⟩

inductive Retyped (name : String) (isAsync : Bool) (lists : (bare typed : Text) → Prop) :
    (old new : Text) → Prop
  | mk {first second mark before bare after typed : Text} (_ : Blank first) (_ : Blank second)
      (_ : Marked isAsync mark) (_ : Blank before) (_ : lists bare typed) (_ : Blank after) :
      Retyped name isAsync lists
        (name.toList ++ first ++ '(' :: second ++ mark ++ '(' :: (before ++ bare ++ after) ++ [')'])
        (name.toList ++ (if isAsync then "(async (" else "((").toList ++ typed ++ [')'])

def OneName (type bare typed : Text) : Prop := Word bare ∧ typed = bare ++ ": ".toList ++ type

def TwoNames (type bare typed : Text) : Prop :=
  ∃ first blank second, Word first ∧ Blank blank ∧ Word second ∧
    bare = first ++ ',' :: blank ++ second ∧
    typed = first ++ ": ".toList ++ type ++ ", ".toList ++ (second ++ ": ".toList ++ type)

theorem retyped_of_singleRule {label name : String} {isAsync : Bool} {type old new : Text}
    (turn : (singleRule label name isAsync type).Turns old new) :
    Retyped name isAsync (OneName type) old new := by
  obtain ⟨groups, reads, rfl⟩ := turn
  obtain ⟨first, second, mark, before, list, after, h₁, h₂, h₃, h₄, inner, h₅, rfl⟩ :=
    call_of_reads reads
  obtain ⟨word, _, _, isWord, rfl, rfl, none⟩ := word_of_reads inner
  obtain ⟨rfl, rfl⟩ := reads_inOrder_nil.mp none
  have retyped : Retyped name isAsync (OneName type) _ _ := .mk h₁ h₂ h₃ h₄ ⟨isWord, rfl⟩ h₅
  simpa [Template.expand, typedCall, typed, Match.group] using retyped

theorem retyped_of_sortRule {type old new : Text} (turn : (sortRule type).Turns old new) :
    Retyped ".sort" false (TwoNames type) old new := by
  obtain ⟨groups, reads, rfl⟩ := turn
  obtain ⟨first, second, mark, before, list, after, h₁, h₂, h₃, h₄, inner, h₅, rfl⟩ :=
    call_of_reads reads
  obtain ⟨word, _, _, isWord, rfl, rfl, more⟩ := word_of_reads inner
  simp only [blanks, reads_inOrder_single, reads_inOrder_anyNumber] at more
  obtain ⟨_, rfl, between, _, rfl, h₆, more⟩ := more
  obtain ⟨other, _, _, isWord', rfl, rfl, none⟩ := word_of_reads more
  obtain ⟨rfl, rfl⟩ := reads_inOrder_nil.mp none
  have retyped : Retyped ".sort" false (TwoNames type) _ _ :=
    .mk h₁ h₂ h₃ h₄ ⟨word, between, other, isWord, h₆, isWord', rfl, rfl⟩ h₅
  simpa [Template.expand, typedCall, typed, Match.group, List.lookup_cons] using retyped

theorem turned_of_singleRule {label name : String} {isAsync : Bool} {type old new : Text}
    (known : name ∈ methods) (turn : (singleRule label name isAsync type).Turns old new) :
    Turned type old new := by
  obtain ⟨h₁, h₂, h₃, h₄, ⟨isWord, rfl⟩, h₅⟩ := retyped_of_singleRule turn
  exact .call known h₁ h₂ h₃ (.single h₄ isWord h₅)

theorem turned_of_sortRule {type old new : Text} (turn : (sortRule type).Turns old new) :
    Turned type old new := by
  obtain ⟨h₁, h₂, h₃, h₄, ⟨word, between, other, isWord, h₆, isWord', rfl, rfl⟩, h₅⟩ :=
    retyped_of_sortRule turn
  have known : ".sort" ∈ methods := by decide
  have turned := Turned.call known h₁ h₂ h₃
    (Annotates.pair h₄ isWord h₆ isWord' h₅ : Annotates type _ _)
  simpa using turned

theorem turned_of_turns {type : String} {rule : Rule Pattern} (mem : rule ∈ (group type).rules)
    {old new : Text} (turn : rule.Turns old new) : Turned type.toList old new := by
  simp only [group, List.cons_append, List.mem_cons, List.mem_append, List.mem_map,
    List.not_mem_nil, or_false] at mem
  rcases mem with rfl | ⟨callback, mem, rfl⟩ | rfl
  · exact turned_of_singleRule (by decide) turn
  · exact turned_of_singleRule (mem_methods mem) turn
  · exact turned_of_sortRule turn

theorem plain_blanks : blanks.Plain := .anyNumber _ true

theorem plain_parameter (index : Nat) : (parameter index).Plain := .group index (.atLeastOne _ true)

theorem solid_call {label name : String} {isAsync : Bool} {parameters : List Pattern}
    {template : Template} (plain : ∀ pattern ∈ parameters, pattern.Plain) :
    Rule.Solid ⟨label, .reshape (call name isAsync parameters) template⟩ := by
  refine ⟨plain_inOrder ?_, fun groups reads => ?_⟩
  · have parenthesis : openParenthesis.Plain ∧ closeParenthesis.Plain := ⟨.one _, .one _⟩
    cases isAsync <;>
      simpa [or_imp, forall_and, plain_literal, plain_blanks, parenthesis] using plain
  · obtain ⟨first, second, mark, before, list, after, -, -, -, -, -, -, text⟩ := call_of_reads reads
    simp at text

theorem solid_of_mem {type : String} {rule : Rule Pattern} (mem : rule ∈ (group type).rules) :
    rule.Solid := by
  simp only [group, List.cons_append, List.mem_cons, List.mem_append, List.mem_map,
    List.not_mem_nil, or_false] at mem
  rcases mem with rfl | ⟨callback, mem, rfl⟩ | rfl
  · exact solid_call (by simp [plain_parameter])
  · exact solid_call (by simp [plain_parameter])
  · exact solid_call (by simp [plain_parameter, plain_blanks, Plain.one])

-- ---------------------------------------------------------------------------
-- The shape of a call
-- ---------------------------------------------------------------------------

def marks : List Char := ['.', '$', '(', ')', ':', '{', '}']

def Quiet (text : Text) : Prop := ∀ c ∈ text, c ∉ marks

instance Quiet.decidable (text : Text) : Decidable (Quiet text) :=
  List.decidableBAll (fun c => c ∉ marks) text

theorem Quiet.append {first second : Text} (h : Quiet first) (h' : Quiet second) :
    Quiet (first ++ second) := List.forall_mem_append.mpr ⟨h, h'⟩

theorem Quiet.not_mem {text : Text} (h : Quiet text) {c : Char} (mark : c ∈ marks) : c ∉ text :=
  fun mem => h c mem mark

theorem quiet_of_blank {text : Text} (h : Blank text) : Quiet text := by
  intro c mem mark
  have none : ∀ c ∈ marks, (!Text.isWhiteSpace c) = true := List.all_eq_true.mp (by decide)
  simpa [h c mem] using none c mark

theorem Word.quiet {text : Text} (h : Word text) : Quiet text := by
  intro c mem mark
  have none : ∀ c ∈ marks, (!Text.isWord c) = true := List.all_eq_true.mp (by decide)
  simpa [h.2 c mem] using none c mark

theorem Marked.quiet {isAsync : Bool} {mark : Text} (h : Marked isAsync mark) : Quiet mark := by
  cases isAsync with
  | false =>
    obtain rfl := h
    simp [Quiet]
  | true =>
    obtain ⟨blank, isBlank, rfl⟩ := h
    have async : Quiet "async".toList := by decide
    exact async.append (quiet_of_blank isBlank)

theorem starts_of_mem_methods {name : String} (known : name ∈ methods) :
    ∃ head rest, (head = '.' ∨ head = '$') ∧ Quiet rest ∧ name.toList = head :: rest := by
  have all : ∀ name ∈ methods, (name.toList.head? = some '.' ∨ name.toList.head? = some '$') ∧
      Quiet name.toList.tail := by decide
  obtain ⟨head, quiet⟩ := all name known
  cases letters : name.toList with
  | nil => simp [letters] at head
  | cons c rest =>
    rw [letters] at head quiet
    exact ⟨c, rest, by simpa using head, quiet, rfl⟩

inductive BareCall : Text → Prop
  | mk {head : Char} {name before list : Text} (_ : head = '.' ∨ head = '$') (_ : Quiet name)
      (_ : Quiet before) (_ : Quiet list) :
      BareCall (head :: name ++ '(' :: before ++ '(' :: list ++ [')'])

/-- A call with types. Behind the first parameter all marks are colons or come from the type. -/
inductive TypedCall (type : Text) : Text → Prop
  | mk {head : Char} {name before word rest : Text} (_ : head = '.' ∨ head = '$') (_ : Quiet name)
      (_ : Quiet before) (_ : Quiet word) (_ : ∀ c ∈ rest, c ∈ marks → c = ':' ∨ c ∈ type) :
      TypedCall type (head :: name ++ '(' :: before ++ '(' :: word ++ ':' :: rest ++ [')'])

theorem Annotates.quiet {type bare typed : Text} (h : Annotates type bare typed) : Quiet bare := by
  cases h with
  | single before word after =>
    exact ((quiet_of_blank before).append word.quiet).append (quiet_of_blank after)
  | pair before first between second after =>
    have comma : Quiet [','] := by decide
    have start := ((quiet_of_blank before).append first.quiet).append comma
    have stop := ((quiet_of_blank between).append second.quiet).append (quiet_of_blank after)
    simpa using start.append stop

theorem Annotates.exists_colon {type bare typed : Text} (h : Annotates type bare typed) :
    ∃ word rest, Quiet word ∧ (∀ c ∈ rest, c ∈ marks → c = ':' ∨ c ∈ type) ∧
      typed = word ++ ':' :: rest := by
  cases h with
  | @single before word after _ isWord _ =>
    refine ⟨word, ' ' :: type, isWord.quiet, fun c mem mark => ?_, by simp⟩
    rcases List.mem_cons.mp mem with rfl | mem
    · exact absurd mark (by decide)
    · exact .inr mem
  | @pair before first between second after _ isWord _ isWord' _ =>
    refine ⟨first, ' ' :: type ++ ", ".toList ++ second ++ ": ".toList ++ type, isWord.quiet,
      fun c mem mark => ?_, by simp⟩
    have quiet : c ∉ second := fun mem => isWord'.quiet c mem mark
    have blank : c ≠ ' ' ∧ c ≠ ',' := by
      constructor <;> (rintro rfl; exact absurd mark (by decide))
    have cases : c ∈ type ∨ c = ':' ∨ c ∈ type := by simpa [blank, quiet] using mem
    exact cases.elim .inr id

theorem Turned.bareCall {type old new : Text} (h : Turned type old new) : BareCall old := by
  cases h with
  | call known first second mark list =>
    obtain ⟨head, rest, isHead, quiet, letters⟩ := starts_of_mem_methods known
    rw [letters]
    have bare := BareCall.mk isHead (quiet.append (quiet_of_blank first))
      ((quiet_of_blank second).append mark.quiet) list.quiet
    simpa using bare

theorem Turned.typedCall {type old new : Text} (h : Turned type old new) : TypedCall type new := by
  cases h with
  | @call name isAsync first second mark bare typed known _ _ _ list =>
    obtain ⟨head, rest, isHead, quiet, letters⟩ := starts_of_mem_methods known
    obtain ⟨word, more, isQuiet, marked, rfl⟩ := list.exists_colon
    rw [letters]
    cases isAsync with
    | false =>
      have none : Quiet [] := by simp [Quiet]
      simpa using TypedCall.mk isHead quiet none isQuiet marked
    | true =>
      have async : Quiet "async ".toList := by decide
      simpa using TypedCall.mk isHead quiet async isQuiet marked

theorem BareCall.not_infix {type bare typed : Text} (closed : '(' ∉ type) (h : BareCall bare)
    (h' : TypedCall type typed) : ¬ bare <:+: typed := by
  rintro ⟨front, back, same⟩
  obtain @⟨head, name, before, list, isHead, h₁, h₂, h₃⟩ := h
  obtain @⟨head', name', before', word, rest, isHead', h₁', h₂', h₃', marked⟩ := h'
  have absent : '(' ∉ rest := fun mem => by simpa [closed] using marked _ mem (by decide)
  have paren {text : Text} (quiet : Quiet text) : '(' ∉ text := quiet.not_mem (by decide)
  have notHead {c : Char} (isHead : c = '.' ∨ c = '$') : c ≠ '(' := by
    rcases isHead with rfl | rfl <;> decide
  have front_absent : '(' ∉ front := by
    have count := congrArg (List.count '(') same
    simp only [List.count_append, List.count_cons, List.count_eq_zero_of_not_mem, paren h₁,
      paren h₂, paren h₃, paren h₁', paren h₂', paren h₃', absent, not_false_eq_true, beq_iff_eq,
      notHead isHead, notHead isHead'] at count
    exact List.count_eq_zero.mp (by simp at count; omega)
  have name_absent : '(' ∉ front ++ head :: name := by
    simp [front_absent, paren h₁, (notHead isHead).symm]
  have name_absent' : '(' ∉ head' :: name' := by simp [paren h₁', (notHead isHead').symm]
  have first : (front ++ head :: name) ++ '(' :: (before ++ '(' :: (list ++ ')' :: back)) =
      (head' :: name') ++ '(' :: (before' ++ '(' :: (word ++ ':' :: (rest ++ [')']))) := by
    simpa using same
  obtain ⟨-, -, second⟩ := append_cons_inj first name_absent' name_absent
  obtain ⟨-, -, third⟩ := append_cons_inj second (paren h₂') (paren h₂)
  obtain ⟨-, mark, -⟩ := append_cons_inj third (h₃'.not_mem (by decide)) (h₃.not_mem (by decide))
  exact absurd mark (by decide)

theorem BareCall.starts {front back : Text} (h : BareCall (front ++ back)) (ne : front ≠ []) :
    '.' ∉ back ∧ '$' ∉ back := by
  generalize whole : front ++ back = text at h
  obtain @⟨head, name, before, list, isHead, h₁, h₂, h₃⟩ := h
  obtain ⟨c, more, rfl⟩ := List.exists_cons_of_ne_nil ne
  have rest : back <:+ name ++ '(' :: before ++ '(' :: list ++ [')'] :=
    ⟨more, (List.cons.inj whole).2⟩
  have absent {c : Char} (mark : c ∈ marks) (ne : c ≠ '(' ∧ c ≠ ')') :
      c ∉ name ++ '(' :: before ++ '(' :: list ++ [')'] := by
    simp [ne, h₁.not_mem mark, h₂.not_mem mark, h₃.not_mem mark]
  exact ⟨fun mem => absent (by decide) (by decide) (rest.mem mem),
    fun mem => absent (by decide) (by decide) (rest.mem mem)⟩

theorem BareCall.prefix_of_append {piece tail later : Text} (h : BareCall piece)
    (isPrefix : piece <+: tail ++ later) (closes : ')' ∈ tail) : piece <+: tail := by
  obtain @⟨head, name, before, list, isHead, h₁, h₂, h₃⟩ := h
  have absent : ')' ∉ head :: name ++ '(' :: before ++ '(' :: list := by
    have paren {text : Text} (quiet : Quiet text) : ')' ∉ text := quiet.not_mem (by decide)
    rcases isHead with rfl | rfl <;> simp [paren h₁, paren h₂, paren h₃]
  rcases List.prefix_or_prefix_of_prefix isPrefix (List.prefix_append tail later) with h | shorter
  · exact h
  · rcases List.prefix_concat_iff.mp shorter with rfl | inner
    · exact List.prefix_rfl
    · exact absurd (inner.mem closes) absent

theorem TypedCall.starts {type typed : Text} (h : TypedCall type typed) :
    ∃ head rest, (head = '.' ∨ head = '$') ∧ typed = head :: rest := by
  obtain @⟨head, name, before, word, rest, isHead, -, -, -, -⟩ := h
  exact ⟨head, _, isHead, rfl⟩

theorem TypedCall.closes {type typed tail : Text} (h : TypedCall type typed) (ne : tail ≠ [])
    (suffix : tail <:+ typed) : ')' ∈ tail := by
  obtain @⟨head, name, before, word, rest, -, -, -, -, -⟩ := h
  rcases List.suffix_concat_iff.mp suffix with rfl | ⟨inner, rfl, -⟩
  · exact absurd rfl ne
  · simp

-- ---------------------------------------------------------------------------
-- One pass is enough
-- ---------------------------------------------------------------------------

/-- No rule of the group finds anything in or around what a rule of the group writes. -/
theorem apart_of_mem {type : String} (closed : '(' ∉ type.toList) {rule other : Rule Pattern}
    (mem : rule ∈ (group type).rules) (mem' : other ∈ (group type).rules) :
    Rule.Apart rule other where
  across ne ne' found turn isPrefix := by
    have bare := (turned_of_turns mem' found).bareCall
    obtain ⟨head, rest, isHead, rfl⟩ := (turned_of_turns mem turn).typedCall.starts
    obtain ⟨c, more, rfl⟩ := List.exists_cons_of_ne_nil ne'
    obtain ⟨rfl, -⟩ := List.cons_prefix_cons.mp isPrefix
    have absent := bare.starts ne
    rcases isHead with rfl | rfl <;> simp at absent
  inside found turn ne suffix isPrefix := by
    have bare := (turned_of_turns mem' found).bareCall
    have typed := (turned_of_turns mem turn).typedCall
    have inner := bare.prefix_of_append isPrefix (typed.closes ne suffix)
    exact bare.not_infix closed typed (inner.isInfix.trans suffix.isInfix)

/-- Where the type opens no parenthesis, the rules find all that there is to find in one pass:
none of them has an edit left, and the group has nothing to revise. -/
theorem settled_after_one_pass (type : String) (closed : '(' ∉ type.toList) (source : Text) :
    (∀ rule ∈ (group type).rules, rule.edits ((group type).revised source) = []) ∧
      (group type).apply ((group type).revised source) = .ok none := by
  have solid : ∀ rule ∈ (group type).rules, rule.Solid := fun rule mem => solid_of_mem mem
  have idle := RuleGroup.idle_rewritten solid (fun rule mem other => apart_of_mem closed mem) source
  rw [RuleGroup.revised_eq_rewritten, RuleGroup.apply_eq_none_iff]
  exact ⟨fun rule mem => Rule.edits_eq_nil_of_idle (solid rule mem) (idle rule mem),
    RuleGroup.rewritten_of_idle solid idle⟩

theorem settled_at_nested_calls :
    '(' ∉ "\x7b $a: b.c; ) \x7d".toList ∧
      (group "\x7b $a: b.c; ) \x7d").revised "a.map( (x) => x.sort((b, c)))".toList =
        ("a.map((x: \x7b $a: b.c; ) \x7d) => x.sort((b: \x7b $a: b.c; ) \x7d, " ++
          "c: \x7b $a: b.c; ) \x7d)))").toList ∧
      (group "\x7b $a: b.c; ) \x7d").apply ((group "\x7b $a: b.c; ) \x7d").revised
        "a.map( (x) => x.sort((b, c)))".toList) = .ok none := by
  have closed : '(' ∉ "\x7b $a: b.c; ) \x7d".toList := by decide
  exact ⟨closed, by decide +kernel, (settled_after_one_pass _ closed _).2⟩

end CallbackRules

end Codemod
