import Codemod.Proofs.CallbackScan
import Codemod.Proofs.Registration
import Codemod.Proofs.Settling

/-!
# No change goes unnoticed

A group compares the text that its rules leave with the text that they were
given. Rules that fire one after the other could lead back to where they
started, and the group would then say that there was nothing to do. They never
do: every rule of a group takes the text further in an order that belongs to the
group (`detects_of_advances`).

The enum rules take bytes away. A token of an enum with a name of one letter is as
long as its literal, but the literal has quotes (`Lighter`). The callback rules add colons
(`MoreColons`).
-/

namespace Codemod

namespace RuleGroup

/-- The group has nothing to revise exactly if none of its rules has an edit, and a revision takes
the text further. -/
def Detects (group : RuleGroup Pattern) (further : Text → Text → Prop) (source : Text) : Prop :=
  ∃ revision?, group.apply source = .ok revision? ∧
    (revision? = none ↔ ∀ rule ∈ group.rules, rule.edits source = []) ∧
    ∀ revision ∈ revision?, further source revision.content

variable {group : RuleGroup Pattern} {further : Text → Text → Prop}

theorem detects_of_advances (onward : Text.Onward further)
    (advances : ∀ rule ∈ group.rules, rule.Advances further) (source : Text) :
    group.Detects further source := by
  have edits_iff : (∀ rule ∈ group.rules, rule.Idle source) ↔
      ∀ rule ∈ group.rules, rule.edits source = [] :=
    forall₂_congr fun rule mem => (advances rule mem).idle_iff_edits_eq_nil onward
  refine ⟨_, group.apply_eq_ok source, ?_, fun revision revised => ?_⟩
  · have none_iff : group.revision? source = none ↔ rewritten group.rules source = source := by
      rw [← group.apply_eq_none_iff, group.apply_eq_ok, Except.ok.injEq]
    rw [none_iff, rewritten_eq_self_iff onward advances, edits_iff]
  · obtain ⟨content, -, changed⟩ := revision?_eq_some revised
    rcases idle_or_further onward advances source with idle | moved
    · exact absurd (rewritten_of_idle (fun rule mem => (advances rule mem).solid) idle) changed
    · rwa [content]

theorem exists_iterate_settled (detects : ∀ source, group.Detects further source)
    (ends : WellFounded fun new old => further old new) (source : Text) :
    ∃ count, group.apply (group.revised^[count] source) = .ok none := by
  induction source using ends.induction with
  | _ source ih =>
    obtain ⟨revision?, applied, -, moved⟩ := detects source
    cases revision? with
    | none => exact ⟨0, applied⟩
    | some revision =>
      have content : group.revised source = revision.content := by
        simp [revised, revision?, applied]
      obtain ⟨count, settled⟩ := ih revision.content (moved revision rfl)
      exact ⟨count + 1, by rwa [Function.iterate_succ_apply, content]⟩

end RuleGroup

-- ---------------------------------------------------------------------------
-- Enum rules
-- ---------------------------------------------------------------------------

namespace EnumRules

open EnumTable

/-- Fewer bytes, or as many bytes and more quotes. -/
def Lighter (old new : Text) : Prop :=
  byteSize new < byteSize old ∨
    byteSize new = byteSize old ∧ old.count '"' < new.count '"'

theorem onward_lighter : Text.Onward Lighter where
  irrefl text := by simp [Lighter]
  trans first second := by
    simp only [Lighter] at first second ⊢
    omega
  part front back lighter := by
    simp only [Lighter, byteSize_append, List.count_append] at lighter ⊢
    omega

theorem count_quote_le_byteSize (text : Text) : text.count '"' ≤ byteSize text := by
  induction text with
  | nil => simp
  | cons c rest ih =>
    have positive := c.utf8Size_pos
    rw [List.count_cons, byteSize_cons]
    split <;> omega

theorem wellFounded_lighter : WellFounded fun new old => Lighter old new := by
  let size (text : Text) : Nat × Nat := (byteSize text, byteSize text - text.count '"')
  have lex : WellFounded (Prod.Lex (· < ·) (· < ·) : Nat × Nat → Nat × Nat → Prop) :=
    WellFounded.prod_lex Nat.lt_wfRel.wf Nat.lt_wfRel.wf
  refine Subrelation.wf (fun {new old} lighter => ?_) (InvImage.wf size lex)
  rcases lighter with fewer | ⟨same, quotes⟩
  · exact Prod.Lex.left _ _ fewer
  · have room := count_quote_le_byteSize new
    have less : byteSize new - new.count '"' < byteSize old - old.count '"' := by omega
    exact Prod.lex_def.mpr (.inr ⟨same, less⟩)

theorem lighter_of_isEntry {entry : String × String} (isEntry : IsEntry entry) :
    Lighter entry.1.toList entry.2.toList := by
  obtain @⟨name, value, identifier, identifier'⟩ := isEntry
  obtain ⟨undivided, ne⟩ := undivided_of_isIdentifier identifier
  have undivided' := (undivided_of_isIdentifier identifier').1
  have quote {text : Text} (h : Undivided text) : text.count '"' = 0 :=
    List.count_eq_zero_of_not_mem (h.not_mem (by decide))
  have named : 0 < byteSize name.toList := Nat.pos_of_ne_zero (mt byteSize_eq_zero.mp ne)
  have small : '.'.utf8Size = 1 ∧ '"'.utf8Size = 1 := by decide
  have tokenBytes : byteSize (token name value).toList =
      byteSize name.toList + (1 + byteSize value.toList) := by simp [token, small]
  have literalBytes : byteSize (quoted value).toList = 1 + (byteSize value.toList + 1) := by
    simp [quoted, small]
  have tokenQuotes : (token name value).toList.count '"' = 0 := by
    simp [token, quote undivided, quote undivided']
  have literalQuotes : (quoted value).toList.count '"' = 2 := by simp [quoted, quote undivided']
  simp only [Lighter, tokenBytes, literalBytes, tokenQuotes, literalQuotes]
  omega

theorem advances_registered {table : EnumTable} (registered : table.Registered)
    (fallback : table.fallbackType = builtIn.fallbackType) :
    ∀ rule ∈ (group table).rules, rule.Advances Lighter := by
  refine fun rule mem => ⟨solid_of_mem_group mem, fun turn => ?_⟩
  rcases List.mem_append.mp mem with mem | mem
  · exact .inl (shorter_of_mem_importRules mem turn)
  · simp only [tokenRules, List.mem_append, List.mem_map, List.mem_singleton] at mem
    rcases mem with ⟨entry, known, rfl⟩ | rfl
    · obtain ⟨-, rfl, rfl⟩ := turn
      exact lighter_of_isEntry (registered.entries entry known)
    · obtain ⟨-, rfl, rfl⟩ := turn
      rw [fallback]
      exact .inl (by decide)

end EnumRules

-- ---------------------------------------------------------------------------
-- Callback rules
-- ---------------------------------------------------------------------------

namespace CallbackRules

def MoreColons (old new : Text) : Prop := old.count ':' < new.count ':'

theorem onward_moreColons : Text.Onward MoreColons where
  irrefl _ := Nat.lt_irrefl _
  trans first second := Nat.lt_trans first second
  part front back more := by
    simp only [MoreColons, List.count_append] at more ⊢
    omega

theorem Turned.moreColons {type old new : Text} (turned : Turned type old new) :
    MoreColons old new := by
  obtain ⟨none, some⟩ := turned.colon
  rw [MoreColons, List.count_eq_zero_of_not_mem none]
  exact List.count_pos_iff.mpr some

theorem advances_group (type : String) :
    ∀ rule ∈ (group type).rules, rule.Advances MoreColons :=
  fun _ mem => ⟨solid_of_mem mem, fun turn => (turned_of_turns mem turn).moreColons⟩

end CallbackRules

-- ---------------------------------------------------------------------------
-- The groups of a run
-- ---------------------------------------------------------------------------

namespace RuleSet

open EnumTable EnumRules

/-- Both groups find nothing to do only where none of their rules does. Whatever enums are
registered from whatever module, the enum rules make the text lighter, so that they are done after
some runs; those of the built-in enums make it shorter. The callback rules add colons, whatever the
type. -/
theorem detects_every_change :
    (∀ module enums table, registerAll { builtIn with module } enums = .ok table → ∀ source,
      (EnumRules.group table).Detects Lighter source ∧
        ∃ count, (EnumRules.group table).apply ((EnumRules.group table).revised^[count] source) =
          .ok none) ∧
    (∀ module source, (EnumRules.group { builtIn with module }).Detects Shorter source) ∧
    ∀ type source, (CallbackRules.group type).Detects CallbackRules.MoreColons source := by
  refine ⟨fun module enums table done source => ?_, fun module source => ?_, fun type source => ?_⟩
  · have start : Registered { builtIn with module } :=
      ⟨registered_builtIn.entries, registered_builtIn.nodup⟩
    have advances := advances_registered (start.registerAll done) (fallbackType_of_registerAll done)
    have detects := RuleGroup.detects_of_advances onward_lighter advances
    exact ⟨detects source, RuleGroup.exists_iterate_settled detects wellFounded_lighter source⟩
  · exact RuleGroup.detects_of_advances onward_shorter (advances_builtIn module) source
  · exact RuleGroup.detects_of_advances CallbackRules.onward_moreColons
      (CallbackRules.advances_group type) source

theorem detects_every_change_short_name :
    ∃ table, registerAll { builtIn with module := "@db/client" } [("E", ["A"])] = .ok table ∧
      (EnumRules.group table).apply "E.A".toList =
        .ok (some { content := "\"A\"".toList, hits := [⟨"E.A", 1⟩] }) ∧
      Lighter "E.A".toList "\"A\"".toList ∧ byteSize "\"A\"".toList = byteSize "E.A".toList := by
  have done : registerAll { builtIn with module := "@db/client" } [("E", ["A"])] = .ok
      { builtIn with
        module := "@db/client"
        symbols := builtIn.symbols ++ ["E"]
        replacements := builtIn.replacements ++ [("E.A", "\"A\"")] } := by decide +kernel
  refine ⟨_, done, ?_⟩
  obtain ⟨⟨revision?, applied, -, lighter⟩, -⟩ :=
    detects_every_change.1 _ _ _ done "E.A".toList
  have revised : revision? = some { content := "\"A\"".toList, hits := [⟨"E.A", 1⟩] } :=
    Except.ok.inj (applied.symm.trans (by decide +kernel))
  subst revised
  exact ⟨applied, lighter _ rfl, by decide⟩

end RuleSet

end Codemod
