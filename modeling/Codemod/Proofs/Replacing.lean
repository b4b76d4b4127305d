import Codemod.Pattern.Reader
import Codemod.Proofs.Weaving
import Codemod.RuleGroup

/-!
# Rules as one forward substitution

The plain meaning of a rule goes once through a text: what does not match is
copied, what matches is replaced. `Text.replaceAll` says so for a fixed text and
`Text.replacePieces` for the pieces that a pattern finds. The rules of a group
are folded over the text.

A rule really scans the whole text for pieces, drops those that would replace
themselves, and has the edits checked, sorted and spliced in from the end.
`apply_eq_rewritten` says that the two agree, and that no group fails. Of the
language that the patterns are written in, only `Lawful` is used.
-/

namespace Codemod

namespace Text

/-- Puts `replacement` wherever `needle` stands, from left to right. An empty needle stands
nowhere. -/
def replaceAll (needle replacement : Text) : Text → Text
  | [] => []
  | c :: rest =>
    if needle ≠ [] && needle.isPrefixOf (c :: rest) then
      replacement ++ replaceAll needle replacement (rest.drop (needle.length - 1))
    else c :: replaceAll needle replacement rest
termination_by text => text.length
decreasing_by all_goals simp only [List.length_drop, List.length_cons]; omega

def between (text : Text) (start stop : Nat) : Text := (slice? text start stop).getD []

theorem between_append (before middle after : Text) :
    between (before ++ middle ++ after) (byteSize before) (byteSize before + byteSize middle) =
      middle := by
  simp only [between, slice?_append, Option.getD_some]

/-- Copies the text from `last` on, with each of the pieces written anew. -/
def replacePieces (render : Match → Text) (text : Text) : (last : Nat) → List Match → Text
  | last, [] => text.between last (byteSize text)
  | last, piece :: rest =>
    text.between last piece.start ++ render piece ++ replacePieces render text piece.stop rest

end Text

-- ---------------------------------------------------------------------------
-- Pieces in their places
-- ---------------------------------------------------------------------------

/-- The pieces stand in the text one after the other, with increasing starts that count from
`offset`; `result` is the text with each of them replaced. -/
inductive Placed (render : Match → Text) :
    (offset : Nat) → (text : Text) → List Match → (result : Text) → Prop
  | none {offset : Nat} {text : Text} : Placed render offset text [] text
  | piece {offset : Nat} {before after result : Text} {piece : Match} {rest : List Match}
      (start : piece.start = offset + byteSize before)
      (ascending : ∀ later ∈ rest, piece.start < later.start)
      (detached : ∀ later ∈ rest, later.text = [] → piece.stop ≠ later.start)
      (tail : Placed render piece.stop after rest result) :
      Placed render offset (before ++ piece.text ++ after) (piece :: rest)
        (before ++ render piece ++ result)

namespace Placed

variable {render : Match → Text} {offset : Nat} {text result : Text} {pieces : List Match}

theorem append_left (before : Text)
    (h : Placed render (offset + byteSize before) text pieces result) :
    Placed render offset (before ++ text) pieces (before ++ result) := by
  cases h with
  | none => exact .none
  | @piece _ inner after result piece rest start ascending detached tail =>
    have start : piece.start = offset + byteSize (before ++ inner) := by
      rw [start, byteSize_append, Nat.add_assoc]
    simpa [List.append_assoc] using Placed.piece start ascending detached tail

theorem cons {piece : Match} {next : Nat} (start : piece.start = offset) (stop : piece.stop = next)
    (ascending : ∀ later ∈ pieces, piece.start < later.start)
    (detached : ∀ later ∈ pieces, later.text = [] → piece.stop ≠ later.start)
    (h : Placed render next text pieces result) :
    Placed render offset (piece.text ++ text) (piece :: pieces) (render piece ++ result) := by
  subst stop
  have start : piece.start = offset + byteSize [] := by simp [start]
  exact Placed.piece start ascending detached h

theorem place (h : Placed render offset text pieces result) {piece : Match}
    (mem : piece ∈ pieces) :
    ∃ before after, text = before ++ piece.text ++ after ∧
      piece.start = offset + byteSize before := by
  induction h with
  | none => cases mem
  | @piece offset before after result head rest start _ _ _ ih =>
    rcases List.mem_cons.mp mem with rfl | mem
    · exact ⟨before, after, rfl, start⟩
    · obtain ⟨inner, outer, rfl, ownStart⟩ := ih mem
      refine ⟨before ++ head.text ++ inner, outer, by simp [List.append_assoc], ?_⟩
      simp only [byteSize_append, Match.stop] at ownStart ⊢
      omega

theorem offset_le_start (h : Placed render offset text pieces result) {piece : Match}
    (mem : piece ∈ pieces) : offset ≤ piece.start := by
  obtain ⟨before, _, _, start⟩ := h.place mem
  omega

theorem ascending (h : Placed render offset text pieces result) :
    pieces.Pairwise fun a b => a.start < b.start := by
  induction h with
  | none => exact .nil
  | piece _ ascending _ _ ih => exact .cons ascending ih

theorem apart (h : Placed render offset text pieces result) :
    pieces.Pairwise fun a b => a.stop ≤ b.start := by
  induction h with
  | none => exact .nil
  | piece _ _ _ tail ih => exact .cons (fun _ mem => tail.offset_le_start mem) ih

theorem detached (h : Placed render offset text pieces result) :
    pieces.Pairwise fun a b => b.text = [] → a.stop ≠ b.start := by
  induction h with
  | none => exact .nil
  | piece _ _ detached _ ih => exact .cons detached ih

theorem successive (h : Placed render 0 text pieces result) : Match.Successive text pieces := by
  refine ⟨h.ascending, h.apart, fun piece mem => ?_, h.detached⟩
  obtain ⟨before, after, whole, start⟩ := h.place mem
  exact ⟨before, after, whole, by omega⟩

theorem replacePieces_eq (h : Placed render offset text pieces result) (front : Text)
    (size : byteSize front = offset) :
    Text.replacePieces render (front ++ text) offset pieces = result := by
  induction h generalizing front with
  | @none offset text =>
    subst size
    simpa [Text.replacePieces] using Text.between_append front text []
  | @piece offset before after result piece rest start _ _ tail ih =>
    subst size
    have copied : Text.between (front ++ (before ++ piece.text ++ after)) (byteSize front)
        piece.start = before := by
      rw [start]
      simpa [List.append_assoc] using Text.between_append front before (piece.text ++ after)
    have onward : Text.replacePieces render (front ++ (before ++ piece.text ++ after)) piece.stop
        rest = result := by
      have size : byteSize (front ++ before ++ piece.text) = piece.stop := by
        simp only [byteSize_append, Match.stop]
        omega
      simpa [List.append_assoc] using ih (front ++ before ++ piece.text) size
    rw [Text.replacePieces, copied, onward]

end Placed

namespace Match

theorem StandsIn.behind {front text : Text} {piece : Match}
    (stands : piece.StandsIn (front ++ text)) (behind : byteSize front ≤ piece.start) :
    ∃ before after, text = before ++ piece.text ++ after ∧
      piece.start = byteSize front + byteSize before := by
  obtain ⟨before, after, whole, start⟩ := stands
  rw [List.append_assoc] at whole
  obtain ⟨inner, rfl, rfl⟩ := exists_append_of_byteSize_le whole (start ▸ behind)
  exact ⟨inner, after, by simp, by rw [start, byteSize_append]⟩

namespace Successive

variable {text : Text} {pieces : List Match}

theorem sublist {fewer : List Match} (h : Successive text pieces) (sub : fewer.Sublist pieces) :
    Successive text fewer where
  ascending := h.ascending.sublist sub
  apart := h.apart.sublist sub
  onCharacters piece mem := h.onCharacters piece (sub.subset mem)
  detached := h.detached.sublist sub

theorem exists_placed (render : Match → Text) {front : Text} (h : Successive (front ++ text) pieces)
    (behind : ∀ piece ∈ pieces, byteSize front ≤ piece.start) :
    ∃ result, Placed render (byteSize front) text pieces result := by
  induction pieces generalizing front text with
  | nil => exact ⟨text, .none⟩
  | cons piece rest ih =>
    obtain ⟨before, after, rfl, start⟩ :=
      (h.onCharacters piece List.mem_cons_self).behind (behind piece List.mem_cons_self)
    have stop : byteSize (front ++ before ++ piece.text) = piece.stop := by
      simp only [byteSize_append, Match.stop]
      omega
    have later : Successive (front ++ before ++ piece.text ++ after) rest := by
      simpa [List.append_assoc] using h.sublist (List.sublist_cons_self piece rest)
    obtain ⟨result, tail⟩ := ih later fun other mem =>
      stop ▸ (List.pairwise_cons.mp h.apart).1 other mem
    rw [stop] at tail
    exact ⟨_, .piece start (List.pairwise_cons.mp h.ascending).1
      (List.pairwise_cons.mp h.detached).1 tail⟩

theorem placed (h : Successive text pieces) (render : Match → Text) :
    Placed render 0 text pieces (Text.replacePieces render text 0 pieces) := by
  have start : Successive ([] ++ text) pieces := h
  obtain ⟨result, placed⟩ := start.exists_placed render (by simp)
  have same := placed.replacePieces_eq [] rfl
  simp only [List.nil_append, byteSize_nil] at same
  exact same ▸ placed

end Successive

end Match

-- ---------------------------------------------------------------------------
-- Searches from place to place
-- ---------------------------------------------------------------------------

namespace Finder

/-- Replaces what a search finds, from left to right. `touching` says that a piece ends here; an
empty piece is then passed over. -/
def replaceFrom (find : Finder) (render : Match → Text) (offset : Nat) (touching : Bool) :
    Text → Text
  | [] =>
    match find offset [] with
    | none => []
    | some piece => if touching then [] else render piece
  | c :: rest =>
    match find offset (c :: rest) with
    | none => c :: replaceFrom find render (offset + c.utf8Size) false rest
    | some piece =>
      if piece.text = [] then
        (if touching then [] else render piece) ++
          c :: replaceFrom find render (offset + c.utf8Size) false rest
      else
        render piece ++ replaceFrom find render (offset + byteSize piece.text) true
          (rest.drop (piece.text.length - 1))
termination_by text => text.length
decreasing_by all_goals simp only [List.length_drop, List.length_cons]; omega

def Sound (find : Finder) : Prop :=
  ∀ ⦃offset : Nat⦄ ⦃rest : Text⦄ ⦃piece : Match⦄, find offset rest = some piece →
    piece.start = offset ∧ piece.text <+: rest

theorem sound_ofText (needle : Text) : (ofText needle).Sound := by
  intro offset rest piece found
  simp only [ofText] at found
  split at found
  next stands =>
    cases found
    simp only [Bool.and_eq_true, List.isPrefixOf_iff_prefix] at stands
    exact ⟨rfl, stands.2⟩
  next => cases found

theorem sound_ofPattern (pattern : Pattern) : (ofPattern pattern).Sound := by
  intro offset rest piece found
  obtain ⟨stop, _, rfl⟩ := Option.map_eq_some_iff.mp found
  exact ⟨rfl, List.take_prefix _ _⟩

theorem piecesFrom_inside (find : Finder) (offset inside : Nat) (text : Text)
    (le : inside ≤ text.length) :
    find.piecesFrom offset inside true text =
      find.piecesFrom (offset + byteSize (text.take inside)) 0 true (text.drop inside) := by
  induction inside generalizing offset text with
  | zero => simp
  | succ inside ih =>
    cases text with
    | nil => simp at le
    | cons c rest =>
      rw [piecesFrom, ih _ rest (by simpa using le)]
      simp [Nat.add_assoc]

theorem le_start_of_mem_piecesFrom {find : Finder} (sound : find.Sound) {offset inside : Nat}
    {touching : Bool} {text : Text} {piece : Match}
    (mem : piece ∈ find.piecesFrom offset inside touching text) : offset ≤ piece.start := by
  fun_induction piecesFrom find offset inside touching text with
  | _ => grind [Sound]

theorem ne_start_of_touching {find : Finder} (sound : find.Sound) {offset : Nat} {text : Text}
    {piece : Match} (mem : piece ∈ find.piecesFrom offset 0 true text) (empty : piece.text = []) :
    offset ≠ piece.start := by
  have later {c : Char} {rest : Text} {inside : Nat} {touching : Bool}
      (mem : piece ∈ find.piecesFrom (offset + c.utf8Size) inside touching rest) :
      offset ≠ piece.start := by
    have lower := le_start_of_mem_piecesFrom sound mem
    have positive := c.utf8Size_pos
    omega
  cases text with
  | nil =>
    rw [piecesFrom] at mem
    split at mem <;> simp at mem
  | cons c rest =>
    rw [piecesFrom] at mem
    split at mem
    next => exact later mem
    next =>
      split at mem
      next => exact later (by simpa using mem)
      next text =>
        rcases List.mem_cons.mp mem with rfl | mem
        · simp [empty] at text
        · exact later mem

theorem placed_piecesFrom {find : Finder} (sound : find.Sound) (render : Match → Text)
    (offset : Nat) (touching : Bool) (text : Text) :
    Placed render offset text (find.piecesFrom offset 0 touching text)
      (find.replaceFrom render offset touching text) := by
  fun_induction replaceFrom find render offset touching text with
  | case1 offset touching none =>
    rw [piecesFrom, none]
    exact .none
  | case2 offset piece found =>
    rw [piecesFrom, found]
    exact .none
  | case3 offset touching piece found apart =>
    obtain ⟨start, isPrefix⟩ := sound found
    have empty : piece.text = [] := List.prefix_nil.mp isPrefix
    rw [piecesFrom, found]
    simp only [apart, Bool.false_eq_true, if_false]
    have last : Placed render offset (piece.text ++ []) [piece] (render piece ++ []) :=
      Placed.none.cons start rfl (by simp) (by simp)
    simpa [empty] using last
  | case4 offset touching c rest none ih =>
    rw [piecesFrom, none]
    exact ih.append_left [c]
  | case5 offset touching c rest piece found empty ih =>
    obtain ⟨start, -⟩ := sound found
    -- what comes after an empty piece starts at least one character later
    have later : Placed render offset (c :: rest)
        (find.piecesFrom (offset + c.utf8Size) 0 false rest)
        (c :: find.replaceFrom render (offset + c.utf8Size) false rest) := ih.append_left [c]
    rw [piecesFrom, found]
    simp only [empty]
    cases touching with
    | true => exact later
    | false =>
      have stop : piece.stop = offset := by simp [Match.stop, start, empty]
      have ascending : ∀ other ∈ find.piecesFrom (offset + c.utf8Size) 0 false rest,
          piece.start < other.start := by
        intro other mem
        have lower := ih.offset_le_start mem
        have positive := c.utf8Size_pos
        omega
      have detached : ∀ other ∈ find.piecesFrom (offset + c.utf8Size) 0 false rest,
          other.text = [] → piece.stop ≠ other.start := by
        intro other mem _
        have := ascending other mem
        omega
      simpa [empty] using later.cons start stop ascending detached
  | case6 offset touching c rest piece found nonempty ih =>
    obtain ⟨start, ⟨after, split⟩⟩ := sound found
    obtain ⟨d, more, text⟩ := List.exists_cons_of_ne_nil nonempty
    rw [text, List.cons_append] at split
    obtain ⟨rfl, rfl⟩ := List.cons.inj split
    have stop : piece.stop = offset + byteSize piece.text := by rw [Match.stop, start]
    have drop : (more ++ after).drop (piece.text.length - 1) = after := by simp [text]
    rw [drop] at ih ⊢
    have skip : find.piecesFrom (offset + d.utf8Size) more.length true (more ++ after) =
        find.piecesFrom (offset + byteSize piece.text) 0 true after := by
      rw [piecesFrom_inside find _ _ _ (by simp), List.take_left, List.drop_left, text,
        byteSize_cons, Nat.add_assoc]
    have ascending : ∀ other ∈ find.piecesFrom (offset + byteSize piece.text) 0 true after,
        piece.start < other.start := by
      intro other mem
      have lower := ih.offset_le_start mem
      have positive := d.utf8Size_pos
      simp only [text, byteSize_cons] at lower
      omega
    have detached : ∀ other ∈ find.piecesFrom (offset + byteSize piece.text) 0 true after,
        other.text = [] → piece.stop ≠ other.start := by
      intro other mem empty
      rw [stop]
      exact ne_start_of_touching sound mem empty
    have placed := ih.cons start stop ascending detached
    rw [piecesFrom, found]
    simpa only [text, skip, List.cons_append] using placed

theorem placed_pieces {find : Finder} (sound : find.Sound) (render : Match → Text) (text : Text) :
    Placed render 0 text (find.pieces text) (find.replaceFrom render 0 false text) :=
  placed_piecesFrom sound render 0 false text

theorem successive_pieces {find : Finder} (sound : find.Sound) (text : Text) :
    Match.Successive text (find.pieces text) :=
  (placed_pieces sound (fun _ => []) text).successive

/-- For a fixed text the search and its bookkeeping come down to `replaceAll`. -/
theorem replaceFrom_ofText (needle replacement : Text) (offset : Nat) (touching : Bool)
    (text : Text) :
    (ofText needle).replaceFrom (fun _ => replacement) offset touching text =
      Text.replaceAll needle replacement text := by
  fun_induction Text.replaceAll needle replacement text generalizing offset touching with
  | case1 =>
    have none : ofText needle offset [] = none := by cases needle <;> simp [ofText]
    rw [replaceFrom, none]
  | case2 c rest stands ih =>
    have found : ofText needle offset (c :: rest) = some { start := offset, text := needle } := by
      rw [ofText, if_pos stands]
    have nonempty : needle ≠ [] := by simp_all
    simp [replaceFrom, found, nonempty, ih]
  | case3 c rest absent ih =>
    have none : ofText needle offset (c :: rest) = none := by rw [ofText, if_neg absent]
    simp [replaceFrom, none, ih]

end Finder

instance : PatternLanguage.Lawful Pattern where
  successive pattern := Finder.successive_pieces (Finder.sound_ofPattern pattern)

/-- A word that is not part of a longer one. Whether it is depends on the characters on both sides
of it. -/
structure WholeWord where
  word : Text

namespace WholeWord

def isAlone (text : Text) (piece : Match) : Bool :=
  match cut? text piece.start, cut? text piece.stop with
  | some (before, _), some (_, after) =>
    !before.getLast?.any Text.isWord && !after.head?.any Text.isWord
  | _, _ => false

instance : PatternLanguage WholeWord where
  read?
    | '\\' :: 'b' :: rest =>
      if rest.dropWhile Text.isWord = ['\\', 'b'] then
        some { pattern := ⟨rest.takeWhile Text.isWord⟩ }
      else none
    | _ => none
  pieces pattern text := ((Finder.ofText pattern.word).pieces text).filter (isAlone text)

instance : PatternLanguage.Lawful WholeWord where
  successive pattern text :=
    (Finder.successive_pieces (Finder.sound_ofText pattern.word) text).sublist List.filter_sublist

end WholeWord

-- ---------------------------------------------------------------------------
-- Rules
-- ---------------------------------------------------------------------------

namespace Rule

variable {ρ : Type}

/-- Pieces that are replaced by themselves may be left out of the batch. -/
theorem woven_of_placed (rule : Rule ρ) {offset : Nat} {text result : Text} {pieces : List Match}
    (h : Placed rule.action.replacement offset text pieces result) :
    Edit.Woven offset text ((pieces.filter fun piece =>
      rule.action.replacement piece ≠ piece.text).map rule.editOf) result := by
  induction h with
  | none => exact .done
  | @piece offset before after result piece rest start _ _ _ ih =>
    by_cases same : rule.action.replacement piece = piece.text
    · have stop : piece.stop = offset + byteSize (before ++ piece.text) := by
        simp only [Match.stop, byteSize_append]
        omega
      rw [stop] at ih
      simpa [same] using ih.append_left
    · have edit : Edit.Woven offset (before ++ piece.text ++ after) (rule.editOf piece :: _)
          (before ++ rule.action.replacement piece ++ result) := .edit start rfl ih
      simpa [same] using edit

variable [PatternLanguage ρ]

def rewrite (rule : Rule ρ) (text : Text) : Text :=
  match rule.action with
  | .substitute needle replacement => Text.replaceAll needle replacement text
  | .reshape pattern template =>
    Text.replacePieces template.expand text 0 (PatternLanguage.pieces pattern text)

def changeCount (rule : Rule ρ) (text : Text) : Nat :=
  (rule.action.pieces text).countP fun piece => rule.action.replacement piece ≠ piece.text

variable [PatternLanguage.Lawful ρ]

theorem placed_pieces (rule : Rule ρ) (text : Text) :
    Placed rule.action.replacement 0 text (rule.action.pieces text) (rule.rewrite text) := by
  obtain ⟨name, action⟩ := rule
  cases action with
  | substitute needle replacement =>
    have placed := Finder.placed_pieces (Finder.sound_ofText needle) (fun _ => replacement) text
    rwa [Finder.replaceFrom_ofText] at placed
  | reshape pattern template =>
    exact (PatternLanguage.Lawful.successive pattern text).placed template.expand

theorem successive_pieces (rule : Rule ρ) (text : Text) :
    Match.Successive text (rule.action.pieces text) := (rule.placed_pieces text).successive

theorem edits_eq (rule : Rule ρ) (text : Text) :
    rule.edits text = ((rule.action.pieces text).filter fun piece =>
      rule.action.replacement piece ≠ piece.text).map rule.editOf := by
  rw [edits, List.filter_map]
  congr 1
  refine List.filter_congr fun piece mem => ?_
  obtain ⟨before, after, whole, start⟩ := (rule.successive_pieces text).onCharacters piece mem
  have covered : slice? text piece.start piece.stop = some piece.text := by
    rw [whole, Match.stop, start]
    exact slice?_append before piece.text after
  have noop : Edit.isNoop text (rule.editOf piece) =
      decide (rule.action.replacement piece = piece.text) := by
    rw [Bool.eq_iff_iff, Edit.isNoop]
    simp only [editOf, covered, beq_iff_eq, Option.some.injEq, decide_eq_true_eq]
    exact eq_comm
  simp [noop]

theorem length_edits (rule : Rule ρ) (text : Text) :
    (rule.edits text).length = rule.changeCount text := by
  rw [edits_eq, List.length_map, ← List.countP_eq_length_filter, changeCount]

theorem woven_edits (rule : Rule ρ) (text : Text) :
    Edit.Woven 0 text (rule.edits text) (rule.rewrite text) := by
  rw [edits_eq]
  exact rule.woven_of_placed (rule.placed_pieces text)

theorem pairwise_edits {rule : Rule ρ} {text : Text} {related : Edit → Edit → Prop}
    (h : (rule.action.pieces text).Pairwise fun a b => related (rule.editOf a) (rule.editOf b)) :
    (rule.edits text).Pairwise related := by
  rw [edits_eq]
  exact List.pairwise_map.mpr (h.filter _)

theorem applyAll_edits (rule : Rule ρ) (text : Text) :
    Edit.applyAll text (rule.edits text) = .ok (rule.rewrite text) :=
  (rule.woven_edits text).applyAll_eq_ok (pairwise_edits (rule.successive_pieces text).ascending)

theorem rewrite_eq_self {rule : Rule ρ} {text : Text} (none : rule.edits text = []) :
    rule.rewrite text = text := by
  have unchanged : Edit.applyAll text [] = .ok text := Edit.Woven.done.applyAll_eq_ok .nil
  have applied := rule.applyAll_edits text
  rw [none, unchanged] at applied
  exact (Except.ok.inj applied).symm

/-- The edits of a rule stand in the source from left to right, no two with the same start and no
insertion at the end of another, and each of them changes something; so they are accepted as a
batch. No piece that would change is left without its edit. -/
theorem edits_stand_in_order (rule : Rule ρ) (source : Text) :
    (rule.edits source).Pairwise (fun a b => a.start < b.start ∧ a.stop ≤ b.start ∧
      (b.start = b.stop → a.stop ≠ b.start)) ∧
    (∀ edit ∈ rule.edits source,
      edit.start ≤ edit.stop ∧ edit.stop ≤ byteSize source ∧ Edit.OnCharacters source edit ∧
      edit.isNoop source = false ∧ edit.description = some rule.name) ∧
    EditBatch.validate { source, edits := rule.edits source } = .ok () ∧
    ∀ piece ∈ rule.action.pieces source, rule.action.replacement piece ≠ piece.text →
      rule.editOf piece ∈ rule.edits source := by
  have successive := rule.successive_pieces source
  have woven := rule.woven_edits source
  have accepted : Edit.validate source (rule.edits source) = .ok () := woven.validate_eq_ok
  refine ⟨pairwise_edits ?_, fun edit mem => ?_, accepted, fun piece mem changes => ?_⟩
  · refine (successive.ascending.and (successive.apart.and successive.detached)).imp ?_
    rintro a b ⟨ascending, apart, detached⟩
    refine ⟨ascending, apart, fun empty => detached (byteSize_eq_zero.mp ?_)⟩
    simp only [editOf, Match.stop] at empty
    omega
  · obtain ⟨before, middle, after, whole, start, stop⟩ := woven.place mem
    have within : edit.stop ≤ byteSize source := by
      simp only [whole, byteSize_append]
      omega
    have onCharacters := (Edit.validate_eq_ok_iff.mp accepted).1 edit mem
    obtain ⟨made, changes⟩ := List.mem_filter.mp mem
    obtain ⟨piece, -, rfl⟩ := List.mem_map.mp made
    exact ⟨by omega, within, onCharacters, by simpa using changes, rfl⟩
  · rw [edits_eq]
    exact List.mem_map_of_mem (List.mem_filter.mpr ⟨mem, by simpa using changes⟩)

def quotedWord (word : Text) : Rule WholeWord :=
  ⟨String.ofList word, .reshape ⟨word⟩ [.text ['"'], .group 0, .text ['"']]⟩

theorem edits_stand_in_order_wholeWord :
    let source := "PAID PAID_OUT PAID".toList
    let edits := (quotedWord "PAID".toList).edits source
    edits.map (fun edit => (edit.start, edit.stop)) = [(0, 4), (14, 18)] ∧
      EditBatch.validate { source, edits } = .ok () :=
  ⟨by decide +kernel, (edits_stand_in_order _ _).2.2.1⟩

end Rule

namespace RuleGroup

variable {ρ : Type} [PatternLanguage ρ]

/-- The text after the rules, each over the text that the one before has left. -/
def rewritten (rules : List (Rule ρ)) (text : Text) : Text :=
  rules.foldl (fun text rule => rule.rewrite text) text

@[simp] theorem rewritten_nil (text : Text) : rewritten ([] : List (Rule ρ)) text = text := rfl

@[simp] theorem rewritten_cons (rule : Rule ρ) (rest : List (Rule ρ)) (text : Text) :
    rewritten (rule :: rest) text = rewritten rest (rule.rewrite text) := rfl

@[simp] theorem rewritten_append (first second : List (Rule ρ)) (text : Text) :
    rewritten (first ++ second) text = rewritten second (rewritten first text) := List.foldl_append

/-- The rules that change something, in order, with the number of their changes. -/
def firings : List (Rule ρ) → Text → List RuleHit
  | [], _ => []
  | rule :: rest, text =>
    let later := firings rest (rule.rewrite text)
    if 0 < rule.changeCount text then ⟨rule.name, rule.changeCount text⟩ :: later else later

variable [PatternLanguage.Lawful ρ]

theorem applyRules_eq_ok (rules : List (Rule ρ)) (text : Text) :
    applyRules text rules = .ok (rewritten rules text, firings rules text) := by
  induction rules generalizing text with
  | nil => rfl
  | cons rule rest ih =>
    have count := rule.length_edits text
    have applied := rule.applyAll_edits text
    rw [applyRules]
    cases edits : rule.edits text with
    | nil =>
      rw [edits, List.length_nil] at count
      simp [rewritten, firings, ← count, Rule.rewrite_eq_self edits, ih]
    | cons edit more =>
      rw [edits] at count applied
      have fired : 0 < rule.changeCount text := by simp [← count]
      simp [applied, ih, bind, Except.bind, rewritten, firings, fired, count, pure, Except.pure]

/-- A group never fails. It gives what its rules give when they are folded over the source one
after the other, or nothing if that is the source again. -/
theorem apply_eq_rewritten (group : RuleGroup ρ) (source : Text) :
    group.apply source = .ok (if rewritten group.rules source = source then none else some {
      content := rewritten group.rules source
      hits := firings group.rules source }) := by
  simp [apply, applyRules_eq_ok, bind, Except.bind, pure, Except.pure]

theorem apply_eq_rewritten_wholeWord :
    apply ⟨.enums, [.quotedWord "PAID".toList, .literal "é" "ee"]⟩ "PAID PAID_OUT é PAID".toList =
      .ok (some { content := "\"PAID\" PAID_OUT ee \"PAID\"".toList
                  hits := [⟨"PAID", 2⟩, ⟨"é", 1⟩] }) := by
  rw [apply_eq_rewritten]
  decide +kernel

end RuleGroup

end Codemod
