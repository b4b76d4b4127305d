import Codemod.Proofs.Settling

/-!
# What the enum rules leave behind

Every rule of a token takes all its occurrences out. What it puts in is a
literal: the quotes around it keep it apart from the text on its two sides, and
the dot that every token has is missing inside. So no rule brings back a token
that another one has removed, whatever enums are registered, and none is left
when the rule of the fallback type has its turn (`not_infix_rewritten`).

That rule comes last. With the built-in type it writes no token either.
-/

namespace Codemod.EnumRules

open EnumTable
open RuleGroup (rewritten)

/-- The rules of a table. The group has one more, which writes the fallback type. -/
def tableRules (table : EnumTable) : List (Rule Pattern) :=
  importRules table ++ table.replacements.map tokenRule

def fallbackRule (table : EnumTable) : Rule Pattern := .literal requestError table.fallbackType

theorem rules_group (table : EnumTable) :
    (group table).rules = tableRules table ++ [fallbackRule table] := by
  simp [group, tokenRules, tableRules, fallbackRule]

theorem revised_group (table : EnumTable) (source : Text) :
    (group table).revised source =
      (fallbackRule table).rewrite (rewritten (tableRules table) source) := by
  rw [RuleGroup.revised_eq_rewritten, rules_group, RuleGroup.rewritten_append]
  rfl

theorem not_infix_of_idle {needle replacement : String} {text : Text} (ne : needle.toList ≠ [])
    (idle : (Rule.literal needle replacement).Idle text) : ¬ needle.toList <:+: text :=
  fun stands => idle ⟨needle.toList, ⟨replacement.toList, ne, rfl, rfl⟩, stands⟩

theorem apart_tokenRule {entry other : String × String} (isEntry : IsEntry entry)
    (isEntry' : IsEntry other) : Rule.Apart (tokenRule entry) (tokenRule other) := by
  obtain ⟨_, value, -, undivided, -, quoted⟩ := isEntry.parts
  obtain ⟨name', value', undivided₁, undivided₂, dotted, -⟩ := isEntry'.parts
  have quote {text : Text} (h : Undivided text) : '"' ∉ text := h.not_mem (by decide)
  refine .of_clear fun {piece result old new} found turn => ?_
  obtain ⟨-, rfl, -⟩ := found
  obtain ⟨-, -, rfl⟩ := turn
  rw [dotted, quoted]
  exact clear_quoted (by simp [quote undivided₁, quote undivided₂]) (by simp : '.' ∈ _)
    (undivided.not_mem (by decide))

theorem toList_ne_nil_of_isEntry {entry : String × String} (isEntry : IsEntry entry) :
    entry.1.toList ≠ [] := by
  obtain ⟨name, value, -, -, dotted, -⟩ := isEntry.parts
  simp [dotted]

theorem not_infix_rewritten {table : EnumTable} (registered : table.Registered) (source : Text) :
    ∀ entry ∈ table.replacements, ¬ entry.1.toList <:+: rewritten (tableRules table) source := by
  have solid : ∀ rule ∈ table.replacements.map tokenRule, rule.Solid :=
    List.forall_mem_map.mpr fun entry _ => solid_literal _ _
  have apart : ∀ rule ∈ table.replacements.map tokenRule,
      ∀ other ∈ table.replacements.map tokenRule, Rule.Apart rule other := by
    simp only [List.forall_mem_map]
    exact fun entry mem other mem' =>
      apart_tokenRule (registered.entries entry mem) (registered.entries other mem')
  intro entry mem
  have idle : (tokenRule entry).Idle (rewritten (tableRules table) source) := by
    rw [tableRules, RuleGroup.rewritten_append]
    exact RuleGroup.idle_rewritten solid apart _ _ (List.mem_map_of_mem mem)
  exact not_infix_of_idle (toList_ne_nil_of_isEntry (registered.entries entry mem)) idle

/-- No token is left in what the built-in rules give, and none in what the last rule is given,
whatever enums are registered and whatever module they come from. -/
theorem no_token_survives :
    (∀ source,
      (∀ entry ∈ builtIn.replacements, ¬ entry.1.toList <:+: (group builtIn).revised source) ∧
        ¬ requestError.toList <:+: (group builtIn).revised source) ∧
    (∀ module fallbackType enums table,
      registerAll { builtIn with module, fallbackType } enums = .ok table →
        ∀ source, ∃ text hits, RuleGroup.applyRules source (tableRules table) = .ok (text, hits) ∧
          (group table).revised source = (fallbackRule table).rewrite text ∧
          ∀ entry ∈ table.replacements, ¬ entry.1.toList <:+: text) := by
  constructor
  · intro source
    have idle := idle_tokenRules source
    rw [← RuleGroup.revised_eq_rewritten, tokenRules, List.forall_mem_append,
      List.forall_mem_map, List.forall_mem_singleton] at idle
    refine ⟨fun entry mem => ?_, not_infix_of_idle (by decide) idle.2⟩
    exact not_infix_of_idle (toList_ne_nil_of_isEntry (registered_builtIn.entries entry mem))
      (idle.1 entry mem)
  · intro module fallbackType enums table done source
    have start : Registered { builtIn with module, fallbackType } :=
      ⟨registered_builtIn.entries, registered_builtIn.nodup⟩
    exact ⟨_, _, RuleGroup.applyRules_eq_ok _ source, revised_group table source,
      not_infix_rewritten (start.registerAll done) source⟩

theorem no_token_survives_nested :
    ∃ table text hits,
      registerAll { builtIn with module := "@db/client" }
        [("PAID", ["PAID"]), ("Role", ["ADMIN", "ADMIN_2"])] = .ok table ∧
      RuleGroup.applyRules "[OrderStatus.PAID.PAID, Role.ADMIN_2]".toList (tableRules table) =
        .ok (text, hits) ∧
      ¬ "PAID.PAID".toList <:+: text ∧ ¬ "Role.ADMIN".toList <:+: text := by
  have done : registerAll { builtIn with module := "@db/client" }
      [("PAID", ["PAID"]), ("Role", ["ADMIN", "ADMIN_2"])] = .ok
        { builtIn with
          module := "@db/client"
          symbols := builtIn.symbols ++ ["PAID", "Role"]
          replacements := builtIn.replacements ++ [("PAID.PAID", "\"PAID\""),
            ("Role.ADMIN", "\"ADMIN\""), ("Role.ADMIN_2", "\"ADMIN_2\"")] } := by decide +kernel
  obtain ⟨text, hits, applied, -, absent⟩ := no_token_survives.2 _ _ _ _ done
    "[OrderStatus.PAID.PAID, Role.ADMIN_2]".toList
  exact ⟨_, text, hits, done, applied, absent ("PAID.PAID", "\"PAID\"") (by simp),
    absent ("Role.ADMIN", "\"ADMIN\"") (by simp)⟩

end Codemod.EnumRules
