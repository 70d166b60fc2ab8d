import Syscore.Shell.Grammar

/-!
# Lines that spell a pipeline

All the ways of writing a pipeline down, and that the parser reads every one of them back.
-/

namespace Syscore
namespace Shell

/-! ## Tokens of a pipeline -/

/-- A non-empty string free of whitespace and operators. -/
structure IsWord (word : Text) : Prop where
  nonempty : word ≠ []
  plain : ∀ c ∈ word, isspace c = false ∧ isOperatorChar c = false

/-- One thing that is written in a stage. -/
inductive Item where
  | word (text : Text)
  | input (name : Text)
  | output (name : Text)

namespace Item

/-- Its tokens. -/
def tokens : Item → List Text
  | word text => [text]
  | input name => [ascii "<", name]
  | output name => [ascii ">", name]

/-- The word itself, or the filename. -/
def text : Item → Text
  | word text => text
  | input name => name
  | output name => name

/-- The word of the command. -/
def word? : Item → Option Text
  | word text => some text
  | _ => none

/-- The name of the input file. -/
def input? : Item → Option Text
  | input name => some name
  | _ => none

/-- The name of the output file. -/
def output? : Item → Option Text
  | output name => some name
  | _ => none

end Item

/-- What a line says. -/
structure Meaning where
  /-- One argument vector for each stage. -/
  commands : List (List Text)
  input : Option Text
  output : Option Text
  background : Bool
  someCommand : commands ≠ []
  someWord : ∀ command ∈ commands, command ≠ []
  words : ∀ command ∈ commands, ∀ word ∈ command, IsWord word
  inputWord : ∀ name ∈ input, IsWord name
  outputWord : ∀ name ∈ output, IsWord name

/-- Stages that spell a pipeline: `< input` somewhere in the first stage and `> output` somewhere in
the last. -/
structure Spells (stages : List (List Item)) (meaning : Meaning) : Prop where
  commands : stages.map (·.filterMap Item.word?) = meaning.commands
  input : stages.map (·.filterMap Item.input?) =
    meaning.input.toList :: List.replicate (meaning.commands.length - 1) []
  output : stages.map (·.filterMap Item.output?) =
    List.replicate (meaning.commands.length - 1) [] ++ [meaning.output.toList]

/-- The tokens of stages joined by `|`, with a final `&` for the background. -/
def lineTokens (stages : List (List Item)) (background : Bool) : List Text :=
  [ascii "|"].intercalate (stages.map (·.flatMap Item.tokens)) ++
    if background then [ascii "&"] else []

/-- Tokens written with whitespace before, between and after them; between two words there is
some. -/
inductive Spaced : List Text → Text → Prop where
  | nil {gap : Text} (space : ∀ c ∈ gap, isspace c = true) : Spaced [] gap
  | cons {gap t rest : Text} {tokens : List Text} (space : ∀ c ∈ gap, isspace c = true)
      (apart : ∀ next, tokens.head? = some next → isOperator t = false → isOperator next = false →
        ∃ c, rest.head? = some c ∧ isspace c = true)
      (spaced : Spaced tokens rest) : Spaced (t :: tokens) (gap ++ t ++ rest)

/-! ## Lexing -/

/-- An operator or a word. -/
def IsToken (t : Text) : Prop := isOperator t = true ∨ IsWord t

theorem IsWord.not_operator {word : Text} (isWord : IsWord word) : isOperator word = false := by
  refine Bool.eq_false_iff.mpr fun operator => ?_
  have single : ∀ c, word = [c] → isOperatorChar c = true → False := by
    rintro c rfl operatorChar
    exact Bool.false_ne_true ((isWord.plain c List.mem_cons_self).2.symm.trans operatorChar)
  simp only [isOperator, Bool.or_eq_true, decide_eq_true_iff] at operator
  rcases operator with ((rfl | rfl) | rfl) | rfl
  · exact single 124 rfl rfl
  · exact single 60 rfl rfl
  · exact single 62 rfl rfl
  · exact single 38 rfl rfl

theorem isOperator_eq_singleton {t : Text} (operator : isOperator t = true) :
    ∃ c, t = [c] ∧ isOperatorChar c = true ∧ isspace c = false := by
  simp only [isOperator, Bool.or_eq_true, decide_eq_true_iff] at operator
  rcases operator with ((rfl | rfl) | rfl) | rfl
  · exact ⟨124, rfl, rfl, rfl⟩
  · exact ⟨60, rfl, rfl, rfl⟩
  · exact ⟨62, rfl, rfl, rfl⟩
  · exact ⟨38, rfl, rfl, rfl⟩

theorem lexLoop_gap {gap : Text} (space : ∀ c ∈ gap, isspace c = true) (rest : Text) :
    lexLoop (gap ++ rest) [] = lexLoop rest [] := by
  induction gap with
  | nil => rfl
  | cons c gap ih =>
      obtain ⟨first, space⟩ := List.forall_mem_cons.mp space
      rw [List.cons_append, lexLoop, if_pos first]
      exact ih space

theorem lexLoop_plain {word : Text}
    (plain : ∀ c ∈ word, isspace c = false ∧ isOperatorChar c = false) (rest cur : Text) :
    lexLoop (word ++ rest) cur = lexLoop rest (cur ++ word) := by
  induction word generalizing cur with
  | nil => rw [List.append_nil]; rfl
  | cons c word ih =>
      obtain ⟨⟨space, operator⟩, plain⟩ := List.forall_mem_cons.mp plain
      rw [List.cons_append, lexLoop, if_neg (Bool.eq_false_iff.mp space),
        if_neg (Bool.eq_false_iff.mp operator), ih plain, List.append_assoc]
      rfl

/-- At whitespace, at an operator and at the end of the line the pending word is complete. -/
theorem lexLoop_boundary {rest : Text}
    (boundary : ∀ c, rest.head? = some c → isspace c = true ∨ isOperatorChar c = true)
    (cur : Text) :
    lexLoop rest cur = flush cur ++ lexLoop rest [] := by
  cases rest with
  | nil => rw [lexLoop, lexLoop]; exact (List.append_nil _).symm
  | cons c rest =>
      rw [lexLoop, lexLoop]
      by_cases space : isspace c = true
      · rw [if_pos space, if_pos space]
        rfl
      · have operator := (boundary c rfl).resolve_left space
        rw [if_neg space, if_neg space, if_pos operator, if_pos operator]
        rfl

/-- What follows a word begins with whitespace or an operator. -/
theorem Spaced.boundary {tokens : List Text} {rest : Text} (spaced : Spaced tokens rest)
    (all : ∀ t ∈ tokens, IsToken t)
    (apart : ∀ next, tokens.head? = some next → isOperator next = false →
      ∃ c, rest.head? = some c ∧ isspace c = true) (c : UInt8) (head : rest.head? = some c) :
    isspace c = true ∨ isOperatorChar c = true := by
  cases spaced with
  | nil space => exact .inl (space c (List.mem_of_mem_head? head))
  | @cons gap t rest tokens space _ _ =>
      cases operator : isOperator t with
      | false =>
          obtain ⟨c', head', space⟩ := apart t rfl operator
          exact .inl (Option.some.inj (head'.symm.trans head) ▸ space)
      | true =>
          obtain ⟨own, rfl, operatorChar, _⟩ := isOperator_eq_singleton operator
          cases gap with
          | nil => exact .inr (Option.some.inj head ▸ operatorChar)
          | cons first gap => exact .inl (Option.some.inj head ▸ space first List.mem_cons_self)

/-- However the tokens are spaced, they are the tokens of the line. -/
theorem lex_spaced {tokens : List Text} {line : Text} (spaced : Spaced tokens line)
    (all : ∀ t ∈ tokens, IsToken t) : lex line = tokens := by
  rw [lex]
  induction spaced with
  | @nil gap space =>
      rw [← List.append_nil gap, lexLoop_gap space]
      rfl
  | @cons gap t rest tokens space apart spaced ih =>
      obtain ⟨own, others⟩ := List.forall_mem_cons.mp all
      rw [List.append_assoc, lexLoop_gap space]
      rcases own with operator | word
      · obtain ⟨c, rfl, operatorChar, notSpace⟩ := isOperator_eq_singleton operator
        rw [List.singleton_append, lexLoop, if_neg (Bool.eq_false_iff.mp notSpace),
          if_pos operatorChar, ih others]
        rfl
      · have boundary := spaced.boundary others fun next head => apart next head word.not_operator
        rw [lexLoop_plain word.plain, List.nil_append, lexLoop_boundary boundary, ih others, flush,
          if_neg word.nonempty]
        rfl

/-! ## The tokens of stages -/

/-- The texts of the items are words. -/
def Worded (stage : List Item) : Prop := ∀ item ∈ stage, IsWord item.text

/-- What is read off the tokens of a stage. -/
structure Read (stage : List Item) : Prop where
  shape : StageShape (stage.flatMap Item.tokens)
  words : commandWords false (stage.flatMap Item.tokens) = stage.filterMap Item.word?
  inputs : targets (ascii "<") (stage.flatMap Item.tokens) = stage.filterMap Item.input?
  outputs : targets (ascii ">") (stage.flatMap Item.tokens) = stage.filterMap Item.output?

theorem read_of_worded {stage : List Item} (worded : Worded stage) : Read stage := by
  induction stage with
  | nil => exact ⟨.nil, rfl, rfl, rfl⟩
  | cons item stage ih =>
      obtain ⟨own, others⟩ := List.forall_mem_cons.mp worded
      obtain ⟨shape, words, inputs, outputs⟩ := ih others
      have plain := Bool.eq_false_iff.mp (isRedirection_of_not_operator own.not_operator)
      have notInput : _ ≠ ascii "<" := word_ne (by decide) own.not_operator
      have notOutput : _ ≠ ascii ">" := word_ne (by decide) own.not_operator
      have other : ascii "<" ≠ ascii ">" := by decide
      cases item with
      | word text =>
          refine ⟨.word own.not_operator shape, ?_, ?_, ?_⟩
          · rw [List.filterMap_cons, ← words]
            exact (if_neg plain).trans (if_neg Bool.false_ne_true)
          · rw [List.filterMap_cons, ← inputs]
            exact targets_of_ne notInput _
          · rw [List.filterMap_cons, ← outputs]
            exact targets_of_ne notOutput _
      | input name =>
          refine ⟨.redirection (by decide) own.not_operator shape, ?_, ?_, ?_⟩
          · rw [List.filterMap_cons, ← words]
            exact (if_neg plain).trans (if_pos rfl)
          · rw [List.filterMap_cons, ← inputs]
            exact targets_cons_cons _ name own.not_operator (by decide) _
          · rw [List.filterMap_cons, ← outputs]
            exact (targets_of_ne other _).trans (targets_of_ne notOutput _)
      | output name =>
          refine ⟨.redirection (by decide) own.not_operator shape, ?_, ?_, ?_⟩
          · rw [List.filterMap_cons, ← words]
            exact (if_neg plain).trans (if_pos rfl)
          · rw [List.filterMap_cons, ← inputs]
            exact (targets_of_ne other.symm _).trans (targets_of_ne notInput _)
          · rw [List.filterMap_cons, ← outputs]
            exact targets_cons_cons _ name own.not_operator (by decide) _

theorem mem_tokens {stage : List Item} (worded : Worded stage) :
    ∀ t ∈ stage.flatMap Item.tokens, IsToken t ∧ t ≠ ascii "|" ∧ t ≠ ascii "&" := by
  intro t inside
  obtain ⟨item, member, own⟩ := List.mem_flatMap.mp inside
  have word := worded item member
  obtain ⟨bar, _, _, amp⟩ := word_iff.mp word.not_operator
  cases item with
  | word text =>
      obtain rfl := List.mem_singleton.mp own
      exact ⟨.inr word, bar, amp⟩
  | input name =>
      rcases List.mem_cons.mp own with rfl | own
      · exact ⟨.inl (by decide), by decide, by decide⟩
      · obtain rfl := List.mem_singleton.mp own
        exact ⟨.inr word, bar, amp⟩
  | output name =>
      rcases List.mem_cons.mp own with rfl | own
      · exact ⟨.inl (by decide), by decide, by decide⟩
      · obtain rfl := List.mem_singleton.mp own
        exact ⟨.inr word, bar, amp⟩

/-! ## The line -/

/-- The line without the final `&`. -/
def stageTokens (stages : List (List Item)) : List Text :=
  [ascii "|"].intercalate (stages.map (·.flatMap Item.tokens))

theorem stageTokens_cons {stage : List Item} {stages : List (List Item)} (more : stages ≠ []) :
    stageTokens (stage :: stages) =
      stage.flatMap Item.tokens ++ ascii "|" :: stageTokens stages := by
  rw [stageTokens, List.map_cons, List.intercalate_cons_of_ne_nil (mt List.map_eq_nil_iff.mp more),
    List.append_assoc]
  rfl

theorem mem_stageTokens {stages : List (List Item)} (worded : ∀ stage ∈ stages, Worded stage) :
    ∀ t ∈ stageTokens stages, IsToken t ∧ t ≠ ascii "&" := by
  induction stages with
  | nil => exact List.forall_mem_nil _
  | cons stage stages ih =>
      obtain ⟨own, others⟩ := List.forall_mem_cons.mp worded
      have first : ∀ t ∈ stage.flatMap Item.tokens, IsToken t ∧ t ≠ ascii "&" :=
        fun t inside => ⟨(mem_tokens own t inside).1, (mem_tokens own t inside).2.2⟩
      cases stages with
      | nil =>
          rw [stageTokens, List.map_singleton, List.intercalate_singleton]
          exact first
      | cons next stages =>
          rw [stageTokens_cons (List.cons_ne_nil _ _)]
          exact List.forall_mem_append.mpr
            ⟨first, List.forall_mem_cons.mpr ⟨⟨.inl (by decide), by decide⟩, ih others⟩⟩

theorem named_stageTokens {stages : List (List Item)} (worded : ∀ stage ∈ stages, Worded stage) :
    RedirectionsNamed (stageTokens stages) := by
  induction stages with
  | nil => trivial
  | cons stage stages ih =>
      obtain ⟨own, others⟩ := List.forall_mem_cons.mp worded
      have shape := (read_of_worded own).shape
      cases stages with
      | nil =>
          rw [stageTokens, List.map_singleton, List.intercalate_singleton]
          exact named_of_shape shape
      | cons next stages =>
          rw [stageTokens_cons (List.cons_ne_nil _ _), named_append shape]
          exact (named_cons_of_not_redirection (by decide) _).mpr (ih others)

theorem targets_stageTokens {op : Text} (redirects : isRedirection op = true)
    {stages : List (List Item)} (worded : ∀ stage ∈ stages, Worded stage) :
    targets op (stageTokens stages) =
      stages.flatMap fun stage => targets op (stage.flatMap Item.tokens) := by
  have other : ascii "|" ≠ op := by
    rintro rfl
    exact absurd redirects (by decide)
  induction stages with
  | nil => rfl
  | cons stage stages ih =>
      obtain ⟨own, others⟩ := List.forall_mem_cons.mp worded
      have named := named_of_shape (read_of_worded own).shape
      cases stages with
      | nil =>
          rw [stageTokens, List.map_singleton, List.intercalate_singleton, List.flatMap_singleton]
      | cons next stages =>
          rw [stageTokens_cons (List.cons_ne_nil _ _), targets_append redirects named,
            targets_of_ne other, ih others]
          rfl

theorem body_lineTokens {stages : List (List Item)} (worded : ∀ stage ∈ stages, Worded stage)
    (background : Bool) : body (lineTokens stages background) = stageTokens stages := by
  cases background with
  | true =>
      rw [lineTokens, if_pos rfl, body, List.getLast?_concat, if_pos rfl, List.dropLast_concat]
      rfl
  | false =>
      rw [lineTokens, if_neg Bool.false_ne_true, List.append_nil, body, if_neg]
      · rfl
      · intro last
        exact (mem_stageTokens worded _ (List.mem_of_getLast? last)).2 rfl

theorem stagesOf_lineTokens {stages : List (List Item)} (worded : ∀ stage ∈ stages, Worded stage)
    (some_stage : stages ≠ []) (background : Bool) :
    stagesOf (lineTokens stages background) = stages.map (·.flatMap Item.tokens) := by
  rw [stagesOf, body_lineTokens worded]
  refine List.splitOn_intercalate _ ?_ (mt List.map_eq_nil_iff.mp some_stage)
  intro tokens inside bar
  obtain ⟨stage, member, rfl⟩ := List.mem_map.mp inside
  exact (mem_tokens (worded stage member) _ bar).2.1 rfl

section Spells

variable {meaning : Meaning} {stages : List (List Item)}

theorem Spells.inputs (spells : Spells stages meaning) :
    stages.flatMap (·.filterMap Item.input?) = meaning.input.toList := by
  rw [List.flatMap_def, spells.input, List.flatten_cons, List.flatten_replicate_nil,
    List.append_nil]

theorem Spells.outputs (spells : Spells stages meaning) :
    stages.flatMap (·.filterMap Item.output?) = meaning.output.toList := by
  rw [List.flatMap_def, spells.output, List.flatten_append, List.flatten_replicate_nil,
    List.nil_append, List.flatten_singleton]

/-- The texts of stages that spell a pipeline are its words and filenames. -/
theorem Spells.worded (spells : Spells stages meaning) : ∀ stage ∈ stages, Worded stage := by
  intro stage member item inside
  cases item with
  | word text =>
      refine meaning.words (stage.filterMap Item.word?) ?_ text
        (List.mem_filterMap.mpr ⟨.word text, inside, rfl⟩)
      exact spells.commands ▸ List.mem_map_of_mem member
  | input name =>
      refine meaning.inputWord name (Option.mem_toList.mp ?_)
      rw [← spells.inputs]
      exact List.mem_flatMap.mpr
        ⟨stage, member, List.mem_filterMap.mpr ⟨.input name, inside, rfl⟩⟩
  | output name =>
      refine meaning.outputWord name (Option.mem_toList.mp ?_)
      rw [← spells.outputs]
      exact List.mem_flatMap.mpr
        ⟨stage, member, List.mem_filterMap.mpr ⟨.output name, inside, rfl⟩⟩

theorem Spells.some_stage (spells : Spells stages meaning) : stages ≠ [] := by
  rintro rfl
  exact meaning.someCommand spells.commands.symm

theorem Spells.words (spells : Spells stages meaning) :
    (stagesOf (lineTokens stages meaning.background)).map (commandWords false) =
      meaning.commands := by
  rw [stagesOf_lineTokens spells.worded spells.some_stage, List.map_map, ← spells.commands]
  exact List.map_congr_left fun stage member => (read_of_worded (spells.worded stage member)).words

/-- No stage of the line is without a command. -/
theorem Spells.each (spells : Spells stages meaning) :
    ∀ stage ∈ stagesOf (lineTokens stages meaning.background), commandWords false stage ≠ [] := by
  intro stage inside
  exact meaning.someWord _ (spells.words ▸ List.mem_map_of_mem inside)

theorem Spells.named (spells : Spells stages meaning) :
    RedirectionsNamed (lineTokens stages meaning.background) := by
  rw [← named_body, body_lineTokens spells.worded]
  exact named_stageTokens spells.worded

theorem Spells.targets_input (spells : Spells stages meaning) :
    targets (ascii "<") (lineTokens stages meaning.background) = meaning.input.toList := by
  rw [← targets_body (by decide) spells.named, body_lineTokens spells.worded,
    targets_stageTokens (by decide) spells.worded, ← spells.inputs]
  exact List.flatMap_congr fun stage member => (read_of_worded (spells.worded stage member)).inputs

theorem Spells.targets_output (spells : Spells stages meaning) :
    targets (ascii ">") (lineTokens stages meaning.background) = meaning.output.toList := by
  rw [← targets_body (by decide) spells.named, body_lineTokens spells.worded,
    targets_stageTokens (by decide) spells.worded, ← spells.outputs]
  exact List.flatMap_congr fun stage member => (read_of_worded (spells.worded stage member)).outputs

theorem Spells.checked (spells : Spells stages meaning) :
    Checked (lineTokens stages meaning.background) where
  named := spells.named
  background := by
    rw [body_lineTokens spells.worded]
    exact fun inside => (mem_stageTokens spells.worded _ inside).2 rfl
  early stage inside := spells.each stage (List.mem_of_mem_dropLast inside)
  command := .inl ⟨_, lastStage_mem _, spells.each _ (lastStage_mem _)⟩

theorem Spells.tokens (spells : Spells stages meaning) :
    ∀ t ∈ lineTokens stages meaning.background, IsToken t := by
  refine List.forall_mem_append.mpr ⟨fun t inside => (mem_stageTokens spells.worded t inside).1, ?_⟩
  cases meaning.background with
  | true => exact List.forall_mem_singleton.mpr (.inl (by decide))
  | false => exact List.forall_mem_nil _

theorem Spells.last (spells : Spells stages meaning) :
    decide ((lineTokens stages meaning.background).getLast? = some (ascii "&")) =
      meaning.background := by
  cases meaning.background with
  | true =>
      rw [lineTokens, if_pos rfl, List.getLast?_concat]
      exact decide_eq_true rfl
  | false =>
      rw [lineTokens, if_neg Bool.false_ne_true, List.append_nil]
      refine decide_eq_false fun last => ?_
      exact (mem_stageTokens spells.worded _ (List.mem_of_getLast? last)).2 rfl

end Spells

/-- Every line that spells a pipeline is read back. -/
theorem parsePipeline_spaced (meaning : Meaning) (stages : List (List Item))
    (spells : Spells stages meaning) (line : Text)
    (spaced : Spaced (lineTokens stages meaning.background) line) :
    parsePipeline line =
      { commands := meaning.commands
        input := meaning.input.getD []
        output := meaning.output.getD []
        background := meaning.background
        valid := true
        error := [] } := by
  have tokens := lex_spaced spaced spells.tokens
  have checked : Checked (lex line) := tokens ▸ spells.checked
  have result := parsePipeline_of_checked checked
  have some_word := spells.each _ (lastStage_mem _)
  have commands := spells.words
  rw [stagesOf_eq, List.map_append, List.map_singleton] at commands
  rw [tokens, if_neg some_word, commands, spells.targets_input, spells.targets_output,
    spells.last] at result
  rw [result]
  cases meaning.input with
  | none => cases meaning.output <;> rfl
  | some name => cases meaning.output <;> rfl

/-- `wc < f` in the background. -/
def countInput : Meaning where
  commands := [[ascii "wc"]]
  input := some (ascii "f")
  output := none
  background := true
  someCommand := List.cons_ne_nil _ _
  someWord := by decide
  words := by
    intro command inside word member
    obtain rfl := List.mem_singleton.mp inside
    obtain rfl := List.mem_singleton.mp member
    exact ⟨by decide, by decide +kernel⟩
  inputWord := by
    rintro _ ⟨⟩
    exact ⟨by decide, by decide +kernel⟩
  outputWord := fun _ other => nomatch other

theorem parsePipeline_spaced_countInput :
    parsePipeline (ascii "<f  wc& ") =
      { commands := [[ascii "wc"]]
        input := ascii "f"
        output := []
        background := true
        valid := true
        error := [] } := by
  have spells : Spells [[.input (ascii "f"), .word (ascii "wc")]] countInput := ⟨rfl, rfl, rfl⟩
  have finish : Spaced [] (ascii " ") := .nil (by decide +kernel)
  have amp : Spaced [ascii "&"] (ascii "& ") :=
    .cons (List.forall_mem_nil _) (fun _ other => nomatch other) finish
  have wc : Spaced [ascii "wc", ascii "&"] (ascii "  wc& ") :=
    @Spaced.cons (ascii "  ") (ascii "wc") _ _ (by decide +kernel)
      (by rintro _ ⟨⟩; decide +kernel) amp
  have f : Spaced [ascii "f", ascii "wc", ascii "&"] (ascii "f  wc& ") :=
    @Spaced.cons [] (ascii "f") _ _ (List.forall_mem_nil _)
      (fun _ _ _ _ => ⟨32, rfl, rfl⟩) wc
  have line : Spaced [ascii "<", ascii "f", ascii "wc", ascii "&"] (ascii "<f  wc& ") :=
    @Spaced.cons [] (ascii "<") _ _ (List.forall_mem_nil _) (by rintro _ ⟨⟩; decide +kernel) f
  exact parsePipeline_spaced countInput _ spells (ascii "<f  wc& ") line

end Shell
end Syscore
