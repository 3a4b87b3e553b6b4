import Mathlib.Data.List.Basic
import QueryShape.CommandLine
import QueryShape.Proofs.Outcome

/-!
# Reading arguments

Command lines are cut into the parts that they are written with. Behind flags alone stands the
command, on which nothing else in the invocation depends.
-/

namespace QueryShape

namespace Argument

theorem cut_json (rest : List String) : cut ("--json" :: rest) = (cut rest).map (.json :: ·) := by
  rw [cut.eq_def]
  simp only [↓reduceIte]
  cases cut rest <;> rfl

theorem cut_config (path : String) (rest : List String) :
    cut ("--config" :: path :: rest) = (cut rest).map (.config path :: ·) := by
  rw [cut, if_neg (by decide), if_pos rfl]
  cases cut rest <;> rfl

theorem cut_positional {text : String} (hj : text ≠ "--json") (hc : text ≠ "--config")
    (rest : List String) : cut (text :: rest) = (cut rest).map (.positional text :: ·) := by
  rw [cut.eq_def]
  simp only [if_neg hj, if_neg hc]
  cases cut rest <;> rfl

theorem cut_cons_append {first : Argument} {before rest : List String} {parts : List Argument}
    (ih : ∀ {parts}, cut before = .ok parts → cut (before ++ rest) = (cut rest).map (parts ++ ·))
    (h : (cut before).map (first :: ·) = .ok parts) :
    (cut (before ++ rest)).map (first :: ·) = (cut rest).map (parts ++ ·) := by
  cases hb : cut before with
  | error error =>
      rw [hb] at h
      cases h
  | ok others =>
      rw [hb] at h
      cases h
      rw [ih hb]
      cases cut rest <;> rfl

theorem cut_append {before rest : List String} {parts : List Argument}
    (h : cut before = .ok parts) : cut (before ++ rest) = (cut rest).map (parts ++ ·) := by
  induction before using cut.induct generalizing parts with
  | case1 =>
      cases h
      cases hr : cut rest <;> simp [hr, Except.map]
  | case2 before ih =>
      rw [cut_json] at h
      rw [List.cons_append, cut_json]
      exact cut_cons_append ih h
  | case3 hne =>
      rw [cut, if_neg hne, if_pos rfl] at h
      cases h
  | case4 path before hne ih =>
      rw [cut_config] at h
      rw [List.cons_append, List.cons_append, cut_config]
      exact cut_cons_append ih h
  | case5 text before hj hc ih =>
      rw [cut_positional hj hc] at h
      rw [List.cons_append, cut_positional hj hc]
      exact cut_cons_append ih h

def words : Argument → List String
  | .json => ["--json"]
  | .config path => ["--config", path]
  | .positional text => [text]

/-- A positional part is a text that is no flag. -/
def Proper : Argument → Prop
  | .positional text => text ≠ "--json" ∧ text ≠ "--config"
  | .json | .config _ => True

/-- These parts, one after the other, are written as these arguments. -/
structure Spells (parts : List Argument) (arguments : List String) : Prop where
  words : arguments = parts.flatMap words
  proper : ∀ part ∈ parts, part.Proper

theorem cut_words_append {part : Argument} (hp : part.Proper) (rest : List String) :
    cut (part.words ++ rest) = (cut rest).map (part :: ·) := by
  cases part with
  | json => exact cut_json rest
  | config path => exact cut_config path rest
  | positional text => exact cut_positional hp.1 hp.2 rest

theorem Spells.cons {part : Argument} {parts : List Argument} {rest : List String}
    (hp : part.Proper) (h : Spells parts rest) : Spells (part :: parts) (part.words ++ rest) where
  words := by rw [h.words, List.flatMap_cons]
  proper := List.forall_mem_cons.mpr ⟨hp, h.proper⟩

theorem cut_eq_ok_of_spells {parts : List Argument} {arguments : List String}
    (h : Spells parts arguments) : cut arguments = .ok parts := by
  obtain ⟨rfl, hproper⟩ := h
  induction parts with
  | nil => rfl
  | cons part parts ih =>
      obtain ⟨hp, hparts⟩ := List.forall_mem_cons.mp hproper
      rw [List.flatMap_cons, cut_words_append hp, ih hparts]
      rfl

theorem cut_eq_error_of_spells {parts : List Argument} {before : List String}
    (h : Spells parts before) : cut (before ++ ["--config"]) = .error .missingConfigPath := by
  rw [cut_append (cut_eq_ok_of_spells h)]
  rfl

theorem exists_spells (arguments : List String) : (∃ parts, Spells parts arguments) ∨
    ∃ parts before, Spells parts before ∧ arguments = before ++ ["--config"] := by
  have hcons (part : Argument) {rest : List String} (hp : part.Proper)
      (h : (∃ parts, Spells parts rest) ∨
        ∃ parts before, Spells parts before ∧ rest = before ++ ["--config"]) :
      (∃ parts, Spells parts (part.words ++ rest)) ∨
        ∃ parts before, Spells parts before ∧ part.words ++ rest = before ++ ["--config"] := by
    rcases h with ⟨parts, h⟩ | ⟨parts, before, h, rfl⟩
    · exact .inl ⟨part :: parts, h.cons hp⟩
    · exact .inr ⟨part :: parts, part.words ++ before, h.cons hp, (List.append_assoc _ _ _).symm⟩
  induction arguments using cut.induct with
  | case1 => exact .inl ⟨[], rfl, by simp⟩
  | case2 rest ih => exact hcons .json trivial ih
  | case3 => exact .inr ⟨[], [], ⟨rfl, by simp⟩, rfl⟩
  | case4 path rest _ ih => exact hcons (.config path) trivial ih
  | case5 text rest hj hc ih => exact hcons (.positional text) ⟨hj, hc⟩ ih

theorem cut_eq_ok_iff {arguments : List String} {parts : List Argument} :
    cut arguments = .ok parts ↔ Spells parts arguments := by
  refine ⟨fun h => ?_, cut_eq_ok_of_spells⟩
  rcases exists_spells arguments with ⟨others, ho⟩ | ⟨_, before, hb, rfl⟩
  · rw [cut_eq_ok_of_spells ho] at h
    cases h
    exact ho
  · rw [cut_eq_error_of_spells hb] at h
    cases h

theorem cut_eq_error_iff {arguments : List String} {error : UsageError} :
    cut arguments = .error error ↔ error = .missingConfigPath ∧
      ∃ parts before, Spells parts before ∧ arguments = before ++ ["--config"] := by
  constructor
  · intro h
    rcases exists_spells arguments with ⟨others, ho⟩ | ⟨parts, before, hb, rfl⟩
    · rw [cut_eq_ok_of_spells ho] at h
      cases h
    · rw [cut_eq_error_of_spells hb] at h
      cases h
      exact ⟨rfl, parts, before, hb, rfl⟩
  · rintro ⟨rfl, _, _, hb, rfl⟩
    exact cut_eq_error_of_spells hb

def positional? : Argument → Option String
  | .positional text => some text
  | .json | .config _ => none

def config? : Argument → Option String
  | .config path => some path
  | .json | .positional _ => none

theorem filterMap_eq_of_forall {f : Argument → Option String} (g : Argument → Option String)
    (h : ∀ part, f part = g part) (arguments : List Argument) :
    arguments.filterMap f = arguments.filterMap g := by
  rw [funext h]

end Argument

namespace Invocation

open Argument (cut positional? config? filterMap_eq_of_forall)

theorem ofArguments_eq_ok {arguments : List Argument} {command schemaPath operationPath : String}
    (h : arguments.filterMap positional? = [command, schemaPath, operationPath]) :
    ofArguments arguments = .ok {
      command, schemaPath, operationPath
      asJson := arguments.contains .json
      configPath? := (arguments.filterMap config?).getLast? } := by
  unfold ofArguments
  rw [filterMap_eq_of_forall positional?, h, filterMap_eq_of_forall config?]
  · rfl
  · intro part
    cases part <;> rfl
  · intro part
    cases part <;> rfl

theorem ofArguments_eq_error {arguments : List Argument}
    (h : ∀ command schemaPath operationPath,
      arguments.filterMap positional? ≠ [command, schemaPath, operationPath]) :
    ofArguments arguments = .error .wrongArguments := by
  unfold ofArguments
  rw [filterMap_eq_of_forall positional?]
  · dsimp only
    split
    · next heq => exact absurd heq (h _ _ _)
    · rfl
  · intro part
    cases part <;> rfl

theorem ofArguments_command {flags : List Argument} (rest : List Argument)
    (hnone : ∀ text, Argument.positional text ∉ flags) :
    (∃ error, ∀ command, ofArguments (flags ++ .positional command :: rest) = .error error) ∨
    ∃ invocation : Invocation, ∀ command,
      ofArguments (flags ++ .positional command :: rest) = .ok { invocation with command } := by
  have hflags : flags.filterMap positional? = [] := by
    rw [List.filterMap_eq_nil_iff]
    intro flag hf
    cases flag with
    | json | config => rfl
    | positional text => exact absurd hf (hnone text)
  have hpositional (command : String) :
      (flags ++ .positional command :: rest).filterMap positional? =
        command :: rest.filterMap positional? := by
    rw [List.filterMap_append, hflags, List.nil_append]
    rfl
  have hconfig (command : String) :
      (flags ++ .positional command :: rest).filterMap config? =
        (flags ++ rest).filterMap config? := by
    rw [List.filterMap_append, List.filterMap_append, List.filterMap_cons_none rfl]
  have hjson (command : String) :
      (flags ++ .positional command :: rest).contains Argument.json =
        (flags ++ rest).contains Argument.json := by
    simp
  by_cases hrest : ∃ schemaPath operationPath,
      rest.filterMap positional? = [schemaPath, operationPath]
  · right
    obtain ⟨schemaPath, operationPath, hrest⟩ := hrest
    refine ⟨⟨"", schemaPath, operationPath, (flags ++ rest).contains .json,
      ((flags ++ rest).filterMap config?).getLast?⟩, fun command => ?_⟩
    have hthree := hpositional command
    rw [hrest] at hthree
    rw [ofArguments_eq_ok hthree, hconfig, hjson]
  · left
    refine ⟨.wrongArguments, fun command => ofArguments_eq_error ?_⟩
    intro _ schemaPath operationPath h
    rw [hpositional command] at h
    exact hrest ⟨schemaPath, operationPath, (List.cons.inj h).2⟩

/-- A beginning of a command line with nothing but flags and their values. -/
def OnlyFlags (before : List String) : Prop :=
  ∃ flags, Argument.Spells flags before ∧ ∀ text, Argument.positional text ∉ flags

/-- Behind flags alone, a command line is the same invocation for every command, or cannot be read
for any. -/
theorem parse_command {before : List String} (h : OnlyFlags before) (after : List String) :
    (∃ error, ∀ command, command ≠ "--json" → command ≠ "--config" →
      parse (before ++ command :: after) = .error error) ∨
    ∃ invocation : Invocation, ∀ command, command ≠ "--json" → command ≠ "--config" →
      parse (before ++ command :: after) = .ok { invocation with command } := by
  obtain ⟨flags, hf, hnone⟩ := h
  have hparse (command : String) (hj : command ≠ "--json") (hc : command ≠ "--config") :
      parse (before ++ command :: after) =
        (cut after).bind fun rest => ofArguments (flags ++ .positional command :: rest) := by
    rw [parse, Argument.cut_append (Argument.cut_eq_ok_of_spells hf),
      Argument.cut_positional hj hc]
    cases cut after <;> rfl
  cases hafter : cut after with
  | error error =>
      left
      refine ⟨error, fun command hj hc => ?_⟩
      rw [hparse command hj hc, hafter]
      rfl
  | ok rest =>
      rcases ofArguments_command rest hnone with ⟨error, h⟩ | ⟨invocation, h⟩
      · left
        refine ⟨error, fun command hj hc => ?_⟩
        rw [hparse command hj hc, hafter]
        exact h command
      · right
        refine ⟨invocation, fun command hj hc => ?_⟩
        rw [hparse command hj hc, hafter]
        exact h command

/-- An invocation is made of these parts: three are positional, `--json` may be among the others,
and of several configurations the last one counts. -/
structure MadeOf (invocation : Invocation) (parts : List Argument) : Prop where
  positional : parts.filterMap positional? =
    [invocation.command, invocation.schemaPath, invocation.operationPath]
  asJson : invocation.asJson = true ↔ .json ∈ parts
  configPath? : invocation.configPath? = (parts.filterMap config?).getLast?

theorem ofArguments_eq_ok_iff {parts : List Argument} {invocation : Invocation} :
    ofArguments parts = .ok invocation ↔ invocation.MadeOf parts := by
  constructor
  · intro h
    by_cases hthree : ∃ command schemaPath operationPath,
        parts.filterMap positional? = [command, schemaPath, operationPath]
    · obtain ⟨command, schemaPath, operationPath, hthree⟩ := hthree
      rw [ofArguments_eq_ok hthree] at h
      cases h
      exact ⟨hthree, List.contains_iff_mem, rfl⟩
    · rw [ofArguments_eq_error fun _ _ _ h => hthree ⟨_, _, _, h⟩] at h
      cases h
  · rintro ⟨hthree, hjson, hconfig⟩
    rw [ofArguments_eq_ok hthree, ← hconfig]
    obtain ⟨command, schemaPath, operationPath, asJson, configPath?⟩ := invocation
    have hflag : parts.contains .json = asJson := by
      rw [Bool.eq_iff_iff, List.contains_iff_mem]
      exact hjson.symm
    rw [hflag]

theorem ofArguments_eq_error_iff {parts : List Argument} {error : UsageError} :
    ofArguments parts = .error error ↔
      error = .wrongArguments ∧ (parts.filterMap positional?).length ≠ 3 := by
  rw [Ne, List.length_eq_three]
  by_cases hthree : ∃ command schemaPath operationPath,
      parts.filterMap positional? = [command, schemaPath, operationPath]
  · obtain ⟨command, schemaPath, operationPath, h⟩ := hthree
    simp [ofArguments_eq_ok h, h]
  · rw [ofArguments_eq_error fun _ _ _ h => hthree ⟨_, _, _, h⟩]
    simp [hthree, eq_comm]

theorem parse_eq_ok_iff {arguments : List String} {invocation : Invocation} :
    parse arguments = .ok invocation ↔
      ∃ parts, Argument.Spells parts arguments ∧ invocation.MadeOf parts := by
  rw [parse, Outcome.bind_eq_ok]
  simp only [Argument.cut_eq_ok_iff, ofArguments_eq_ok_iff]

theorem parse_eq_error_iff {arguments : List String} {error : UsageError} :
    parse arguments = .error error ↔
      (error = .missingConfigPath ∧
        ∃ parts before, Argument.Spells parts before ∧ arguments = before ++ ["--config"]) ∨
      error = .wrongArguments ∧
        ∃ parts, Argument.Spells parts arguments ∧ (parts.filterMap positional?).length ≠ 3 := by
  rw [parse, Outcome.bind_eq_error, Argument.cut_eq_error_iff]
  simp only [Argument.cut_eq_ok_iff, ofArguments_eq_error_iff, and_left_comm, exists_and_left]

def Refuses (arguments : List String) (message : String) : Prop :=
  ∃ error, parse arguments = .error error ∧ error.message = message

/-- Command lines are read by a grammar: they are spelled by parts, of which three are positional.
One that ends in a configuration without a path is refused for that, however many positional parts
there are. Any other that is refused gets the text on how to use the command. -/
theorem parse_grammar (arguments : List String) :
    (∀ invocation, parse arguments = .ok invocation ↔
        ∃ parts, Argument.Spells parts arguments ∧ invocation.MadeOf parts) ∧
      (Refuses arguments "Missing value for '--config'" ↔
        ∃ parts before, Argument.Spells parts before ∧ arguments = before ++ ["--config"]) ∧
      (Refuses arguments UsageError.wrongArguments.message ↔
        ∃ parts, Argument.Spells parts arguments ∧ (parts.filterMap positional?).length ≠ 3) ∧
      ((∃ invocation, parse arguments = .ok invocation) ∨
        Refuses arguments "Missing value for '--config'" ∨
        Refuses arguments UsageError.wrongArguments.message) := by
  have hmessages : UsageError.wrongArguments.message ≠ UsageError.missingConfigPath.message := by
    decide
  refine ⟨fun invocation => parse_eq_ok_iff, ?_, ?_, ?_⟩
  · constructor
    · rintro ⟨error, h, hmessage⟩
      rcases parse_eq_error_iff.mp h with ⟨-, hends⟩ | ⟨rfl, -⟩
      · exact hends
      · exact absurd hmessage hmessages
    · intro hends
      exact ⟨.missingConfigPath, parse_eq_error_iff.mpr (.inl ⟨rfl, hends⟩), rfl⟩
  · constructor
    · rintro ⟨error, h, hmessage⟩
      rcases parse_eq_error_iff.mp h with ⟨rfl, -⟩ | ⟨-, hparts⟩
      · exact absurd hmessage.symm hmessages
      · exact hparts
    · intro hparts
      exact ⟨.wrongArguments, parse_eq_error_iff.mpr (.inr ⟨rfl, hparts⟩), rfl⟩
  · cases h : parse arguments with
    | ok invocation => exact .inl ⟨invocation, rfl⟩
    | error error =>
        right
        cases error with
        | missingConfigPath => exact .inl ⟨_, h, rfl⟩
        | wrongArguments => exact .inr ⟨_, h, rfl⟩

-- A path may look like a flag, and the last path counts.
example : parse ["--config", "--json", "print", "s", "--config", "c.yml", "q"] =
    .ok ⟨"print", "s", "q", false, some "c.yml"⟩ := by decide

end Invocation
end QueryShape
