import Codemod.Arguments
import Codemod.Proofs.Shapes

/-!
# Arguments in any order

What is asked for on a command line can be written in many ways: options stand
before or after the path, values stand by themselves or are joined to their
option, some names have a second spelling. `Asks` leaves all of that open. It
only asks that each slot gets its values, in their order, and that no switch is
turned on twice. Reading gives back what was asked (`read_items_in_any_order`).
-/

namespace Codemod

theorem Category.word_injective : Function.Injective Category.word := by
  intro a b same
  have read := congrArg Category.ofWord? same
  rwa [ofWord?_word, ofWord?_word, Option.some.injEq] at read

namespace Arguments

-- ---------------------------------------------------------------------------
-- What can be asked for
-- ---------------------------------------------------------------------------

/-- A text that is no option and no separator, wherever it stands. -/
structure Value where
  text : String
  nonempty : text ≠ ""
  undashed : text.toList.head? ≠ some '-'

inductive NamedSlot
  | config
  | ext
  | excludeFolder
  | exclude
  | only
  deriving DecidableEq, Repr

namespace NamedSlot

def name : NamedSlot → String
  | config => "config"
  | ext => "ext"
  | excludeFolder => "exclude-folder"
  | exclude => "exclude"
  | only => "only"

def slot : NamedSlot → Slot
  | config => .config
  | ext => .extension
  | excludeFolder => .excludeFolder
  | exclude => .excludeFolder
  | only => .only

end NamedSlot

inductive NamedSwitch
  | respectGitignore
  | dryRun
  | verbose
  | v
  deriving DecidableEq, Repr

namespace NamedSwitch

def argument : NamedSwitch → String
  | respectGitignore => "--respect-gitignore"
  | dryRun => "--dry-run"
  | verbose => "--verbose"
  | v => "-v"

def switch : NamedSwitch → Switch
  | respectGitignore => .respectGitignore
  | dryRun => .dryRun
  | verbose => .verbose
  | v => .verbose

end NamedSwitch

/-- One thing that is asked for on the command line. -/
inductive Item
  | path (value : Value)
  | option (named : NamedSlot) (value : Value) (joined : Bool)
  | switch (named : NamedSwitch)

namespace Item

def written : Item → List String
  | path value => [value.text]
  | option named value false => ["--" ++ named.name, value.text]
  | option named value true => ["--" ++ named.name ++ "=" ++ value.text]
  | switch named => [named.argument]

def value? (slot : Slot) : Item → Option String
  | path value => if slot = .path then some value.text else none
  | option named value _ => if slot = named.slot then some value.text else none
  | switch _ => none

def turnsOn (switch : Switch) : Item → Bool
  | .switch named => switch = named.switch
  | _ => false

end Item

/-- The values that are in a slot, in order. -/
def values (arguments : Arguments) : Slot → List String
  | .path => arguments.path.toList
  | .config => arguments.config.toList
  | .extension => arguments.extensions
  | .excludeFolder => arguments.excludeFolders
  | .only => (arguments.only.map Category.word).toList

def isOn (arguments : Arguments) : Switch → Bool
  | .respectGitignore => arguments.respectGitignore
  | .dryRun => arguments.dryRun
  | .verbose => arguments.verbose
  | .help => false
  | .version => false

/-- The items of each slot are its values, in their order, and each switch that is on has one item.
Apart from that the items may be interleaved in any way. -/
structure Asks (items : List Item) (arguments : Arguments) : Prop where
  values : ∀ slot, items.filterMap (Item.value? slot) = arguments.values slot
  switches : ∀ switch, items.countP (Item.turnsOn switch) = (arguments.isOn switch).toNat

-- ---------------------------------------------------------------------------
-- Arguments seen by slots and switches
-- ---------------------------------------------------------------------------

theorem toList_inj {α : Type} {a b : Option α} (same : a.toList = b.toList) : a = b := by
  cases a <;> cases b <;> simp_all

theorem toNat_inj {a b : Bool} (same : a.toNat = b.toNat) : a = b := by
  cases a <;> cases b <;> simp_all

variable {arguments whole : Arguments}

theorem eq_of_values (values : ∀ slot, arguments.values slot = whole.values slot)
    (switches : ∀ switch, arguments.isOn switch = whole.isOn switch) : arguments = whole := by
  have path : arguments.path = whole.path := toList_inj (values .path)
  have config : arguments.config = whole.config := toList_inj (values .config)
  have extensions : arguments.extensions = whole.extensions := values .extension
  have excludeFolders : arguments.excludeFolders = whole.excludeFolders := values .excludeFolder
  have only : arguments.only = whole.only :=
    Option.map_injective Category.word_injective (toList_inj (values .only))
  have respectGitignore : arguments.respectGitignore = whole.respectGitignore :=
    switches .respectGitignore
  have dryRun : arguments.dryRun = whole.dryRun := switches .dryRun
  have verbose : arguments.verbose = whole.verbose := switches .verbose
  cases arguments
  cases whole
  simp_all

/-- What the items add to some arguments gives the whole. -/
structure Completes (items : List Item) (arguments whole : Arguments) : Prop where
  values : ∀ slot,
    arguments.values slot ++ items.filterMap (Item.value? slot) = whole.values slot
  switches : ∀ switch,
    (arguments.isOn switch).toNat + items.countP (Item.turnsOn switch) =
      (whole.isOn switch).toNat

theorem Asks.completes {items : List Item} (h : Asks items whole) : Completes items {} whole := by
  refine ⟨fun slot => ?_, fun switch => ?_⟩
  · rw [← h.values slot]
    cases slot <;> rfl
  · rw [← h.switches switch]
    cases switch <;> exact Nat.zero_add _

theorem Completes.eq_of_nil (h : Completes [] arguments whole) : arguments = whole := by
  refine eq_of_values (fun slot => ?_) (fun switch => ?_)
  · simpa using h.values slot
  · have same : (arguments.isOn switch).toNat = (whole.isOn switch).toNat := h.switches switch
    exact toNat_inj same

theorem eq_some_of_append {before after : List String} {value : String} {single : Option String}
    (h : before ++ value :: after = single.toList) : before = [] ∧ single = some value := by
  cases single with
  | none => simp at h
  | some other =>
    obtain ⟨none, same⟩ | ⟨-, other⟩ := List.append_eq_singleton_iff.mp h
    · exact ⟨none, congrArg some (List.cons.inj same).1.symm⟩
    · cases other

theorem isOn_store {stored : Arguments} {slot : Slot} {value : Option String}
    (done : arguments.store slot value = .ok stored) (switch : Switch) :
    stored.isOn switch = arguments.isOn switch := by
  unfold store at done
  repeat' split at done
  all_goals cases done <;> cases switch <;> rfl

theorem values_turnOn {turned : Arguments} {switch : Switch} {long : Bool}
    (done : arguments.turnOn switch long = .ok turned) (slot : Slot) :
    turned.values slot = arguments.values slot := by
  unfold turnOn at done
  repeat' split at done
  all_goals cases done <;> cases slot <;> rfl

/-- A slot takes the next of its values. As there is one to come, a slot for a single value is
still free. -/
theorem store_value {slot : Slot} {value : Value} {rest : List String}
    (next : arguments.values slot ++ value.text :: rest = whole.values slot) :
    ∃ stored, arguments.store slot (some value.text) = .ok stored ∧
      ∀ other, stored.values other =
        arguments.values other ++ if other = slot then [value.text] else [] := by
  have nonempty := value.nonempty
  cases slot with
  | path =>
    have free : arguments.path = none := toList_inj (eq_some_of_append next).1
    refine ⟨{ arguments with path := some value.text }, ?_, fun other => ?_⟩
    · simp [store, nonempty, pure, Except.pure]
    · cases other <;> simp [values, free]
  | config =>
    have free : arguments.config = none := toList_inj (eq_some_of_append next).1
    refine ⟨{ arguments with config := some value.text }, ?_, fun other => ?_⟩
    · simp [store, nonempty, free, pure, Except.pure]
    · cases other <;> simp [values, free]
  | extension =>
    refine ⟨{ arguments with extensions := arguments.extensions ++ [value.text] }, rfl, ?_⟩
    intro other
    cases other <;> simp [values]
  | excludeFolder =>
    refine ⟨{ arguments with excludeFolders := arguments.excludeFolders ++ [value.text] }, rfl, ?_⟩
    intro other
    cases other <;> simp [values]
  | only =>
    obtain ⟨none, some⟩ := eq_some_of_append next
    have free : arguments.only = .none := by simpa [values] using none
    obtain ⟨category, -, word⟩ := Option.map_eq_some_iff.mp some
    have known : Category.ofWord? value.text = .some category := by
      rw [← word, Category.ofWord?_word]
    refine ⟨{ arguments with only := category }, ?_, fun other => ?_⟩
    · simp [store, nonempty, free, known, pure, Except.pure]
    · cases other <;> simp [values, free, word]

theorem Completes.store {item : Item} {rest : List Item}
    (ahead : Completes (item :: rest) arguments whole) (slot : Slot) (value : Value)
    (holds : ∀ other, item.value? other = if other = slot then some value.text else none)
    (idle : ∀ switch, item.turnsOn switch = false) :
    ∃ stored, arguments.store slot (some value.text) = .ok stored ∧
      (∀ other, stored.values other =
        arguments.values other ++ if other = slot then [value.text] else []) ∧
      Completes rest stored whole := by
  have next : arguments.values slot ++ value.text :: rest.filterMap (Item.value? slot) =
      whole.values slot := by simpa [List.filterMap_cons, holds] using ahead.values slot
  obtain ⟨stored, done, values⟩ := store_value next
  refine ⟨stored, done, values, fun other => ?_, fun switch => ?_⟩
  · rw [values, ← ahead.values other, List.filterMap_cons, holds]
    split <;> simp
  · simpa [isOn_store done, idle] using ahead.switches switch

theorem turnOn_named {named : NamedSwitch} (off : arguments.isOn named.switch = false) :
    ∃ turned, (∀ long, arguments.turnOn named.switch long = .ok turned) ∧
      ∀ switch, turned.isOn switch = (arguments.isOn switch || switch = named.switch) := by
  cases named with
  | respectGitignore =>
    have off : arguments.respectGitignore = false := off
    refine ⟨{ arguments with respectGitignore := true }, fun long => ?_, fun switch => ?_⟩
    · simp [NamedSwitch.switch, turnOn, off, pure, Except.pure]
    · cases switch <;> simp [isOn, NamedSwitch.switch]
  | dryRun =>
    have off : arguments.dryRun = false := off
    refine ⟨{ arguments with dryRun := true }, fun long => ?_, fun switch => ?_⟩
    · simp [NamedSwitch.switch, turnOn, off, pure, Except.pure]
    · cases switch <;> simp [isOn, NamedSwitch.switch]
  | verbose | v =>
    have off : arguments.verbose = false := off
    refine ⟨{ arguments with verbose := true }, fun long => ?_, fun switch => ?_⟩
    · simp [NamedSwitch.switch, turnOn, off, pure, Except.pure]
    · cases switch <;> simp [isOn, NamedSwitch.switch]

theorem Completes.turnOn {named : NamedSwitch} {rest : List Item}
    (ahead : Completes (.switch named :: rest) arguments whole) :
    ∃ turned, (∀ long, arguments.turnOn named.switch long = .ok turned) ∧
      Completes rest turned whole := by
  have count (switch : Switch) : (arguments.isOn switch).toNat +
      (rest.countP (Item.turnsOn switch) + if switch = named.switch then 1 else 0) =
      (whole.isOn switch).toNat := by
    simpa [List.countP_cons, Item.turnsOn] using ahead.switches switch
  have off : arguments.isOn named.switch = false := by
    have once := count named.switch
    have atMost := (whole.isOn named.switch).toNat_le
    rw [if_pos rfl] at once
    exact toNat_inj (by simp only [Bool.toNat_false]; omega)
  obtain ⟨turned, done, switches⟩ := turnOn_named off
  refine ⟨turned, done, fun slot => ?_, fun switch => ?_⟩
  · rw [values_turnOn (done true)]
    exact ahead.values slot
  · rw [← count switch, switches]
    by_cases same : switch = named.switch
    · simp [same, off, Nat.add_comm]
    · simp [same]

-- ---------------------------------------------------------------------------
-- How arguments are spelled
-- ---------------------------------------------------------------------------

namespace Spelling

theorem ofArgument_value (value : Value) : ofArgument value.text = plain value.text := by
  have undashed := value.undashed
  unfold ofArgument
  split <;> simp_all

theorem ofArgument_name (named : NamedSlot) :
    ofArgument ("--" ++ named.name) = long named.name none := by
  cases named <;> rfl

theorem ofArgument_joined (named : NamedSlot) (value : String) :
    ofArgument ("--" ++ named.name ++ "=" ++ value) = long named.name (some value) := by
  have dashes : ("--" ++ named.name ++ "=" ++ value).toList =
      '-' :: '-' :: (named.name.toList ++ '=' :: value.toList) := by simp
  have unequal : ∀ c ∈ named.name.toList, (c != '=') = true := by
    cases named <;> simp [NamedSlot.name]
  have stops : Text.Stops (· != '=') ('=' :: value.toList) := Text.stops_cons rfl
  have front := Text.takeWhile_append unequal stops
  have back := Text.dropWhile_append unequal stops
  unfold ofArgument
  rw [dashes]
  split
  next alone => simp at alone
  next rest _ same =>
    simp only [List.cons.injEq, true_and] at same
    rw [← same, front, back]
    simp
  next different same =>
    cases same
    exact (different rfl).elim
  next different _ => exact (different _ rfl).elim

end Spelling

theorem ofLong?_name (named : NamedSlot) :
    Meaning.ofLong? named.name = some (.slot named.slot) := by
  cases named <;> rfl

-- ---------------------------------------------------------------------------
-- Reading
-- ---------------------------------------------------------------------------

namespace Progress

variable {progress : Progress}

/-- The arguments so far, with the value that is still pending. -/
structure Stands (progress : Progress) (arguments : Arguments) : Prop where
  settles : progress.settle = .ok { progress with arguments, pending := none }
  separated : progress.separated = false
  pathSeen : progress.pathSeen = !(arguments.values .path).isEmpty

theorem Stands.pending_ne (h : Stands progress arguments) (slot : Slot) :
    progress.pending ≠ some ⟨slot, none⟩ := by
  intro pending
  have settles := h.settles
  simp [settle, pending, store] at settles

theorem read_named_slot (h : Stands progress arguments) (named : NamedSlot) :
    progress.read ("--" ++ named.name) =
      .ok { progress with arguments, pending := some ⟨named.slot, none⟩ } := by
  simp [read, h.separated, Spelling.ofArgument_name, long, ofLong?_name, h.settles, bind,
    Except.bind, pure, Except.pure]

theorem read_joined (h : Stands progress arguments) (named : NamedSlot) (value : String) :
    progress.read ("--" ++ named.name ++ "=" ++ value) =
      settle { progress with arguments, pending := some ⟨named.slot, some value⟩ } := by
  simp [read, h.separated, Spelling.ofArgument_joined, long, ofLong?_name, h.settles, bind,
    Except.bind]

theorem read_value (progress : Progress) (separated : progress.separated = false) {slot : Slot}
    (pending : progress.pending = some ⟨slot, none⟩) (value : Value) :
    progress.read value.text =
      .ok { progress with pending := some ⟨slot, some value.text⟩ } := by
  simp [read, separated, Spelling.ofArgument_value, plain, pending, pure, Except.pure]

theorem read_path (h : Stands progress arguments) (free : arguments.values .path = [])
    (value : Value) :
    progress.read value.text = .ok { progress with
      arguments, pending := some ⟨.path, some value.text⟩, pathSeen := true } := by
  have pathSeen : progress.pathSeen = false := by simp [h.pathSeen, free]
  have plain : progress.plain value.text = progress.positional value.text := by
    unfold Progress.plain
    split
    next pending => exact absurd pending (h.pending_ne _)
    next => rfl
  simp [read, h.separated, Spelling.ofArgument_value, plain, positional, pathSeen, h.settles, bind,
    Except.bind, pure, Except.pure]

theorem read_switch (h : Stands progress arguments) (named : NamedSwitch) :
    ∃ long, progress.read named.argument =
      (arguments.turnOn named.switch long).map fun turned =>
        { progress with arguments := turned, pending := none } := by
  have read : ∃ long, progress.read named.argument = progress.switch named.switch long := by
    rw [Progress.read, h.separated]
    cases named with
    | v => exact ⟨false, bind_pure _⟩
    | _ => exact ⟨true, rfl⟩
  obtain ⟨long, read⟩ := read
  refine ⟨long, ?_⟩
  rw [read, switch, h.settles]
  cases turned : arguments.turnOn named.switch long <;>
    simp [turned, bind, Except.bind, Except.map, pure, Except.pure]

theorem Stands.settled (h : Stands progress arguments) :
    Stands { progress with arguments, pending := none } arguments :=
  ⟨rfl, h.separated, h.pathSeen⟩

theorem Stands.of_pending (progress : Progress) {stored : Arguments} {slot : Slot} {value : String}
    (done : arguments.store slot (some value) = .ok stored) (separated : progress.separated = false)
    (pathSeen : progress.pathSeen = !(stored.values .path).isEmpty) :
    Stands { progress with arguments, pending := some ⟨slot, some value⟩ } stored :=
  ⟨by simp [settle, done, pure, Except.pure], separated, pathSeen⟩

def Takes (progress : Progress) (item : Item) (stored : Arguments) : Prop :=
  ∃ next, item.written.foldlM read progress = .ok next ∧ Stands next stored

theorem takes_path {stored : Arguments} {value : Value} (h : Stands progress arguments)
    (free : arguments.values .path = [])
    (done : arguments.store .path (some value.text) = .ok stored)
    (path : stored.values .path ≠ []) : Takes progress (.path value) stored := by
  refine ⟨_, ?_, .of_pending { progress with pathSeen := true } done h.separated ?_⟩
  · simpa [Item.written] using read_path h free value
  · simpa using path

theorem takes_option {stored : Arguments} {named : NamedSlot} {value : Value}
    (h : Stands progress arguments)
    (done : arguments.store named.slot (some value.text) = .ok stored)
    (path : stored.values .path = arguments.values .path) (joined : Bool) :
    Takes progress (.option named value joined) stored := by
  have pending : Stands { progress with arguments, pending := some ⟨named.slot, some value.text⟩ }
      stored := .of_pending progress done h.separated (by rw [path, h.pathSeen])
  cases joined with
  | false =>
    refine ⟨_, ?_, pending⟩
    have taken := read_value { progress with arguments, pending := some ⟨named.slot, none⟩ }
      h.separated rfl value
    rw [Item.written, List.foldlM_cons, read_named_slot h]
    change [value.text].foldlM read _ = _
    simpa using taken
  | true =>
    refine ⟨_, ?_, pending.settled⟩
    simpa [Item.written, read_joined h] using pending.settles

theorem takes_switch {turned : Arguments} {named : NamedSwitch} (h : Stands progress arguments)
    (done : ∀ long, arguments.turnOn named.switch long = .ok turned) :
    Takes progress (.switch named) turned := by
  obtain ⟨long, read⟩ := read_switch h named
  refine ⟨{ progress with arguments := turned, pending := none }, ?_, rfl, h.separated, ?_⟩
  · simp [Item.written, read, done, Except.map]
  · rw [values_turnOn (done long), h.pathSeen]

theorem takes_of_completes {item : Item} {rest : List Item} (h : Stands progress arguments)
    (ahead : Completes (item :: rest) arguments whole) :
    ∃ stored, Takes progress item stored ∧ Completes rest stored whole := by
  cases item with
  | path value =>
    obtain ⟨stored, done, values, ahead'⟩ := ahead.store .path value (fun _ => rfl) (fun _ => rfl)
    have path : stored.values .path = arguments.values .path ++ [value.text] := values .path
    have free : arguments.values .path = [] := (eq_some_of_append path.symm).1
    exact ⟨stored, takes_path h free done (by simp [path]), ahead'⟩
  | option named value joined =>
    obtain ⟨stored, done, values, ahead'⟩ :=
      ahead.store named.slot value (fun _ => rfl) (fun _ => rfl)
    have path : stored.values .path = arguments.values .path := by
      rw [values, if_neg (by cases named <;> simp [NamedSlot.slot]), List.append_nil]
    exact ⟨stored, takes_option h done path joined, ahead'⟩
  | switch named =>
    obtain ⟨turned, done, ahead'⟩ := ahead.turnOn
    exact ⟨turned, takes_switch h done, ahead'⟩

theorem foldlM_read_items {items : List Item} (h : Stands progress arguments)
    (ahead : Completes items arguments whole) :
    ∃ final, (items.flatMap Item.written).foldlM read progress = .ok final ∧
      Stands final whole := by
  induction items generalizing progress arguments with
  | nil =>
    obtain rfl := ahead.eq_of_nil
    exact ⟨progress, rfl, h⟩
  | cons item rest ih =>
    obtain ⟨stored, ⟨next, first, stands⟩, ahead⟩ := takes_of_completes h ahead
    obtain ⟨final, others, stands⟩ := ih stands ahead
    refine ⟨final, ?_, stands⟩
    rw [List.flatMap_cons, List.foldlM_append, first]
    exact others

end Progress

/-- What is asked for is what is read, in whatever order and spelling it is written. -/
theorem read_items_in_any_order {items : List Item} {arguments : Arguments}
    (asks : Asks items arguments) : read (items.flatMap Item.written) = .ok arguments := by
  have start : Progress.Stands {} {} := ⟨rfl, rfl, rfl⟩
  obtain ⟨final, folded, stands⟩ := Progress.foldlM_read_items start asks.completes
  simp [read, folded, stands.settles, bind, Except.bind, pure, Except.pure]

theorem read_items_in_any_order_mixed :
    read ["--ext=tsx", "-v", "--exclude", "old", "app", "--only=types", "--ext", "=ts",
      "--exclude-folder=a=b", "--dry-run"] = .ok {
        path := some "app", extensions := ["tsx", "=ts"], excludeFolders := ["old", "a=b"],
        only := some .types, dryRun := true, verbose := true } := by
  have asks : Asks [.option .ext ⟨"tsx", by decide, by decide⟩ true, .switch .v,
      .option .exclude ⟨"old", by decide, by decide⟩ false, .path ⟨"app", by decide, by decide⟩,
      .option .only ⟨"types", by decide, by decide⟩ true,
      .option .ext ⟨"=ts", by decide, by decide⟩ false,
      .option .excludeFolder ⟨"a=b", by decide, by decide⟩ true, .switch .dryRun]
      { path := some "app", extensions := ["tsx", "=ts"], excludeFolders := ["old", "a=b"],
        only := some .types, dryRun := true, verbose := true } :=
    ⟨fun slot => by cases slot <;> rfl, fun switch => by cases switch <;> rfl⟩
  exact read_items_in_any_order asks

end Arguments

end Codemod
