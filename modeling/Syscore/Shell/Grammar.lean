import Syscore.Shell.Parser

/-!
# What the parser accepts

A line is well-formed when its tokens are stages between bars, with a command in each stage and the
redirections in their places. The parser looks for some of the faults of a line and not for others.
-/

namespace Syscore
namespace Shell

/-! ## Lines as stages -/

/-- `<` or `>`. -/
def isRedirection (t : Text) : Bool := t = ascii "<" || t = ascii ">"

/-- The words of a stage that are not the target of a redirection; `target` tells whether the first
token would be one. -/
def commandWords (target : Bool) : List Text → List Text
  | [] => []
  | t :: tokens =>
      if isRedirection t then commandWords true tokens
      else if target then commandWords false tokens
      else t :: commandWords false tokens

/-- The tokens that follow an operator. -/
def targets (op : Text) : List Text → List Text
  | [] => []
  | t :: tokens => (if t = op then tokens.head?.toList else []) ++ targets op tokens

/-- Every `<` and `>` is followed by a filename. -/
def RedirectionsNamed : List Text → Prop
  | [] => True
  | t :: tokens =>
      (isRedirection t = true → ∃ name, tokens.head? = some name ∧ isOperator name = false) ∧
        RedirectionsNamed tokens

/-- The line without the final `&`. -/
def body (tokens : List Text) : List Text :=
  if tokens.getLast? = some (ascii "&") then tokens.dropLast else tokens

/-- The tokens between bars. -/
def stagesOf (tokens : List Text) : List (List Text) := (body tokens).splitOn (ascii "|")

/-- The last stage of a line. -/
def lastStage (tokens : List Text) : List Text :=
  (stagesOf tokens).getLast (List.splitOn_ne_nil _ _)

/-- At most one `<`, in the first stage, and at most one `>`, in the last. -/
structure Placed (tokens : List Text) : Prop where
  oneInput : tokens.count (ascii "<") ≤ 1
  firstInput : ∀ stage ∈ (stagesOf tokens).tail, ascii "<" ∉ stage
  oneOutput : tokens.count (ascii ">") ≤ 1
  lastOutput : ∀ stage ∈ (stagesOf tokens).dropLast, ascii ">" ∉ stage

/-- Stages between bars and a final `&`, with a command in each stage. -/
structure WellFormed (tokens : List Text) : Prop extends Placed tokens where
  commands : ∀ stage ∈ stagesOf tokens, commandWords false stage ≠ []
  named : RedirectionsNamed tokens
  background : ascii "&" ∉ body tokens

/-- The pipeline describes the line completely. -/
structure Describes (p : Pipeline) (tokens : List Text) : Prop where
  commands : p.commands = (stagesOf tokens).map (commandWords false)
  input : p.input = (targets (ascii "<") tokens).headD []
  output : p.output = (targets (ascii ">") tokens).headD []
  background : p.background = decide (tokens.getLast? = some (ascii "&"))

/-- Only well-formed lines are accepted, and a line with an empty stage is rejected. -/
def AcceptsOnlyWellFormed (line : Text) : Prop :=
  let p := parsePipeline line
  let tokens := lex line
  (p.valid = true → p.commands ≠ [] → WellFormed tokens ∧ Describes p tokens) ∧
    (tokens ≠ [] → (∃ stage ∈ stagesOf tokens, commandWords false stage = []) → p.valid = false)

/-- The faults that the parser looks for are absent. -/
structure Checked (tokens : List Text) : Prop where
  named : RedirectionsNamed tokens
  background : ascii "&" ∉ body tokens
  early : ∀ stage ∈ (stagesOf tokens).dropLast, commandWords false stage ≠ []
  command : (∃ stage ∈ stagesOf tokens, commandWords false stage ≠ []) ∨
    ∀ t ∈ tokens, isRedirection t = false

/-! ## A stage -/

theorem isOperator_of_isRedirection {t : Text} (redirection : isRedirection t = true) :
    isOperator t = true := by
  rw [isRedirection, Bool.or_eq_true, decide_eq_true_iff, decide_eq_true_iff] at redirection
  rcases redirection with rfl | rfl
  · decide
  · decide

theorem isRedirection_of_not_operator {t : Text} (word : isOperator t = false) :
    isRedirection t = false :=
  Bool.eq_false_iff.mpr fun redirection =>
    Bool.eq_false_iff.mp word (isOperator_of_isRedirection redirection)

/-- A run of words and of redirections with their filenames. -/
inductive StageShape : List Text → Prop where
  | nil : StageShape []
  | word {t : Text} {stage : List Text} (word : isOperator t = false) (rest : StageShape stage) :
      StageShape (t :: stage)
  | redirection {op name : Text} {stage : List Text} (redirects : isRedirection op = true)
      (word : isOperator name = false) (rest : StageShape stage) : StageShape (op :: name :: stage)

/-- What follows a redirection that lacks its filename. -/
def Nameless (tokens : List Text) : Prop :=
  ∀ name, tokens.head? = some name → isOperator name = true

/-- A stage is such a run, or such a run ends at a redirection without a filename. -/
theorem shape_or_nameless : ∀ stage : List Text, ascii "|" ∉ stage → ascii "&" ∉ stage →
    StageShape stage ∨ ∃ front op behind, stage = front ++ op :: behind ∧ StageShape front ∧
      isRedirection op = true ∧ Nameless behind
  | [], _, _ => .inl .nil
  | t :: stage, bars, amps => by
      obtain ⟨notBar, bars⟩ := not_or.mp (mt List.mem_cons.mpr bars)
      obtain ⟨notAmp, amps⟩ := not_or.mp (mt List.mem_cons.mpr amps)
      cases redirects : isRedirection t with
      | false =>
          have word : isOperator t = false := by
            rw [isRedirection, Bool.or_eq_false_iff, decide_eq_false_iff_not,
              decide_eq_false_iff_not] at redirects
            simp [isOperator, Ne.symm notBar, Ne.symm notAmp, redirects]
          rcases shape_or_nameless stage bars amps with
            shape | ⟨front, op, behind, rfl, shape, rest⟩
          · exact .inl (.word word shape)
          · exact .inr ⟨t :: front, op, behind, rfl, .word word shape, rest⟩
      | true =>
          match stage with
          | [] => exact .inr ⟨[], t, [], rfl, .nil, redirects, fun _ other => nomatch other⟩
          | name :: stage =>
              cases word : isOperator name with
              | true =>
                  refine .inr ⟨[], t, name :: stage, rfl, .nil, redirects, fun other same => ?_⟩
                  exact Option.some.inj same ▸ word
              | false =>
                  have bars := (not_or.mp (mt List.mem_cons.mpr bars)).2
                  have amps := (not_or.mp (mt List.mem_cons.mpr amps)).2
                  rcases shape_or_nameless stage bars amps with
                    shape | ⟨front, op, behind, rfl, shape, rest⟩
                  · exact .inl (.redirection redirects word shape)
                  · exact .inr ⟨t :: name :: front, op, behind, rfl,
                      .redirection redirects word shape, rest⟩

theorem word_iff {t : Text} : isOperator t = false ↔
    t ≠ ascii "|" ∧ t ≠ ascii "<" ∧ t ≠ ascii ">" ∧ t ≠ ascii "&" := by
  simp only [isOperator, Bool.or_eq_false_iff, decide_eq_false_iff_not, and_assoc]

theorem isRedirection_iff {op : Text} :
    isRedirection op = true ↔ op = ascii "<" ∨ op = ascii ">" := by
  simp only [isRedirection, Bool.or_eq_true, decide_eq_true_iff]

theorem word_ne {op t : Text} (operator : isOperator op = true) (word : isOperator t = false) :
    t ≠ op := fun same => Bool.noConfusion (operator.symm.trans (same ▸ word))

theorem targets_of_ne {op t : Text} (other : t ≠ op) (tokens : List Text) :
    targets op (t :: tokens) = targets op tokens := by
  rw [targets, if_neg other, List.nil_append]

theorem targets_cons_cons (op name : Text) (word : isOperator name = false)
    (operator : isOperator op = true) (tokens : List Text) :
    targets op (op :: name :: tokens) = name :: targets op tokens := by
  have other := word_ne operator word
  rw [targets, if_pos rfl, targets_of_ne other]
  rfl

/-- The redirections of some tokens. -/
def Pipeline.redirect (p : Pipeline) (tokens : List Text) : Pipeline :=
  { p with
    input := (targets (ascii "<") tokens).getLastD p.input
    output := (targets (ascii ">") tokens).getLastD p.output }

theorem parseLoop_word {t : Text} (word : isOperator t = false) (tokens current : List Text)
    (p : Pipeline) : parseLoop (t :: tokens) current p = parseLoop tokens (current ++ [t]) p := by
  obtain ⟨bar, input, output, amp⟩ := word_iff.mp word
  rw [parseLoop.eq_def]
  simp only [if_neg bar, if_neg input, if_neg output, if_neg amp]

/-- A run is read to its end. -/
theorem parseLoop_shape {stage : List Text} (shape : StageShape stage) (rest current : List Text)
    (p : Pipeline) :
    parseLoop (stage ++ rest) current p =
      parseLoop rest (current ++ commandWords false stage) (p.redirect stage) := by
  induction shape generalizing current p with
  | nil => rw [List.nil_append, commandWords, List.append_nil]; rfl
  | @word t stage word _ ih =>
      obtain ⟨_, input, output, _⟩ := word_iff.mp word
      have same : p.redirect (t :: stage) = p.redirect stage := by
        rw [Pipeline.redirect, targets_of_ne input, targets_of_ne output]
        rfl
      rw [List.cons_append, parseLoop_word word, ih, same, commandWords,
        if_neg (Bool.eq_false_iff.mp (isRedirection_of_not_operator word)),
        if_neg Bool.false_ne_true,
        List.append_assoc]
      rfl
  | @redirection op name stage redirects word _ ih =>
      have notRedirection := Bool.eq_false_iff.mp (isRedirection_of_not_operator word)
      have words : commandWords false (op :: name :: stage) = commandWords false stage := by
        rw [commandWords, if_pos redirects, commandWords, if_neg notRedirection, if_pos rfl]
      obtain ⟨_, notInput, notOutput, _⟩ := word_iff.mp word
      have notOperator := Bool.eq_false_iff.mp word
      rw [words]
      rcases isRedirection_iff.mp redirects with rfl | rfl
      · have same : p.redirect (ascii "<" :: name :: stage) =
            ({ p with input := name } : Pipeline).redirect stage := by
          have other : ascii "<" ≠ ascii ">" := by decide
          rw [Pipeline.redirect, targets_cons_cons _ _ word (by decide), List.getLastD_cons,
            targets_of_ne other, targets_of_ne notOutput]
          rfl
        have notBar : ascii "<" ≠ ascii "|" := by decide
        rw [List.cons_append, List.cons_append, parseLoop, if_neg notBar, if_pos rfl, same]
        simp only [if_neg notOperator, ih]
      · have same : p.redirect (ascii ">" :: name :: stage) =
            ({ p with output := name } : Pipeline).redirect stage := by
          have other : ascii ">" ≠ ascii "<" := by decide
          rw [Pipeline.redirect, targets_cons_cons _ _ word (by decide), List.getLastD_cons,
            targets_of_ne other, targets_of_ne notInput]
          rfl
        have notBar : ascii ">" ≠ ascii "|" := by decide
        have other : ascii ">" ≠ ascii "<" := by decide
        rw [List.cons_append, List.cons_append, parseLoop, if_neg notBar, if_neg other, if_pos rfl,
          same]
        simp only [if_neg notOperator, ih]

/-- A redirection without a filename is reported. -/
theorem parseLoop_nameless {op : Text} (redirects : isRedirection op = true) {behind : List Text}
    (nameless : Nameless behind) (current : List Text) (p : Pipeline) :
    (parseLoop (op :: behind) current p).valid = false := by
  have notBar : op ≠ ascii "|" := by
    rintro rfl
    exact absurd redirects (by decide)
  have other : ascii ">" ≠ ascii "<" := by decide
  rw [parseLoop.eq_def]
  cases behind with
  | nil =>
      rcases isRedirection_iff.mp redirects with rfl | rfl
      · simp only [if_neg notBar, if_true, Pipeline.fail]
      · simp only [if_neg notBar, if_neg other, if_true, Pipeline.fail]
  | cons name behind =>
      have operator := nameless name rfl
      rcases isRedirection_iff.mp redirects with rfl | rfl
      · simp only [if_neg notBar, if_true, operator, Pipeline.fail]
      · simp only [if_neg notBar, if_neg other, if_true, operator, Pipeline.fail]

/-! ## A line -/

/-- A line is read stage by stage. -/
theorem stages_induction {motive : List Text → Prop}
    (last : ∀ stage, ascii "|" ∉ stage → motive stage)
    (bar : ∀ stage rest, ascii "|" ∉ stage → motive rest → motive (stage ++ ascii "|" :: rest))
    (tokens : List Text) : motive tokens := by
  by_cases more : ascii "|" ∈ tokens
  · obtain ⟨stage, rest, shape, own⟩ := List.eq_append_cons_of_mem more
    have shorter : rest.length < tokens.length := by
      rw [shape, List.length_append, List.length_cons]
      omega
    rw [shape]
    exact bar stage rest own (stages_induction last bar rest)
  · exact last tokens more
termination_by tokens.length

theorem named_append {front : List Text} (shape : StageShape front) (rest : List Text) :
    RedirectionsNamed (front ++ rest) ↔ RedirectionsNamed rest := by
  induction shape with
  | nil => rfl
  | word word _ ih =>
      have plain := Bool.eq_false_iff.mp (isRedirection_of_not_operator word)
      exact ⟨fun named => ih.mp named.2,
        fun named => ⟨fun other => absurd other plain, ih.mpr named⟩⟩
  | redirection redirects word _ ih =>
      have plain := Bool.eq_false_iff.mp (isRedirection_of_not_operator word)
      exact ⟨fun named => ih.mp named.2.2, fun named =>
        ⟨fun _ => ⟨_, rfl, word⟩, fun other => absurd other plain, ih.mpr named⟩⟩

theorem not_named_of_nameless {op : Text} (redirects : isRedirection op = true)
    {behind : List Text} (nameless : Nameless behind) : ¬ RedirectionsNamed (op :: behind) := by
  rintro ⟨followed, _⟩
  obtain ⟨name, head, word⟩ := followed redirects
  exact Bool.false_ne_true (word.symm.trans (nameless name head))

theorem named_cons_of_not_redirection {t : Text} (plain : isRedirection t = false)
    (rest : List Text) : RedirectionsNamed (t :: rest) ↔ RedirectionsNamed rest :=
  ⟨fun named => named.2, fun named =>
    ⟨fun other => absurd other (Bool.eq_false_iff.mp plain), named⟩⟩

theorem named_of_shape {stage : List Text} (shape : StageShape stage) : RedirectionsNamed stage :=
  List.append_nil stage ▸ (named_append shape []).mpr trivial

theorem targets_append {op : Text} (redirects : isRedirection op = true) {front : List Text}
    (named : RedirectionsNamed front) (rest : List Text) :
    targets op (front ++ rest) = targets op front ++ targets op rest := by
  induction front with
  | nil => rfl
  | cons t front ih =>
      rw [List.cons_append, targets, targets, ih named.2, List.append_assoc]
      by_cases same : t = op
      · obtain ⟨name, head, _⟩ := named.1 (same ▸ redirects)
        obtain ⟨behind, rfl⟩ := List.head?_eq_some_iff.mp head
        rfl
      · rw [if_neg same, if_neg same]

theorem named_append_operator {t : Text} (operator : isOperator t = true)
    (plain : isRedirection t = false) (front rest : List Text) :
    RedirectionsNamed (front ++ t :: rest) ↔ RedirectionsNamed front ∧ RedirectionsNamed rest := by
  induction front with
  | nil =>
      exact (named_cons_of_not_redirection plain rest).trans
        ⟨fun named => ⟨trivial, named⟩, fun named => named.2⟩
  | cons first front ih =>
      cases front with
      | nil =>
          have unnamed : ¬ ∃ name, some t = some name ∧ isOperator name = false := by
            rintro ⟨name, same, word⟩
            exact Bool.false_ne_true (word.symm.trans (Option.some.inj same ▸ operator))
          constructor
          · rintro ⟨followed, named⟩
            exact ⟨⟨fun redirects => absurd (followed redirects) unnamed, trivial⟩, named.2⟩
          · rintro ⟨⟨followed, _⟩, named⟩
            refine ⟨fun redirects => ?_, ih.mpr ⟨trivial, named⟩⟩
            obtain ⟨name, absent, _⟩ := followed redirects
            cases absent
      | cons name front =>
          exact (and_congr_right fun _ => ih).trans and_assoc.symm

theorem targets_eq_nil_iff {op : Text} (redirects : isRedirection op = true) {tokens : List Text}
    (named : RedirectionsNamed tokens) : targets op tokens = [] ↔ op ∉ tokens := by
  induction tokens with
  | nil => exact iff_of_true rfl List.not_mem_nil
  | cons t tokens ih =>
      rw [targets, List.append_eq_nil_iff, ih named.2, List.mem_cons, not_or]
      refine and_congr_left fun _ => ?_
      by_cases same : t = op
      · obtain ⟨name, head, _⟩ := named.1 (same ▸ redirects)
        rw [if_pos same, head]
        exact iff_of_false (List.cons_ne_nil name []) fun other => other same.symm
      · rw [if_neg same]
        exact iff_of_true rfl (Ne.symm same)

theorem mem_of_mem_targets {op name : Text} {tokens : List Text}
    (inside : name ∈ targets op tokens) :
    name ∈ tokens := by
  induction tokens with
  | nil => exact inside
  | cons t tokens ih =>
      rw [targets] at inside
      rcases List.mem_append.mp inside with own | later
      · split at own
        · exact List.mem_cons_of_mem t (List.mem_of_mem_head? (Option.mem_toList.mp own))
        · cases own
      · exact List.mem_cons_of_mem t (ih later)

theorem getLastD_append {α : Type*} (front behind : List α) (default : α) :
    (front ++ behind).getLastD default = behind.getLastD (front.getLastD default) := by
  induction front generalizing default with
  | nil => rfl
  | cons item front ih => rw [List.cons_append, List.getLastD_cons, List.getLastD_cons, ih]

theorem nameless_append {behind rest : List Text} (first : Nameless behind)
    (nameless : Nameless rest) : Nameless (behind ++ rest) := by
  cases behind with
  | nil => exact nameless
  | cons => exact first

theorem shape_of_named {stage rest : List Text} (bars : ascii "|" ∉ stage)
    (amps : ascii "&" ∉ stage) (nameless : Nameless rest)
    (named : RedirectionsNamed (stage ++ rest)) : StageShape stage := by
  rcases shape_or_nameless stage bars amps with
    shape | ⟨front, op, behind, rfl, shape, redirects, fault⟩
  · exact shape
  · rw [List.append_assoc, named_append shape, List.cons_append] at named
    exact absurd named (not_named_of_nameless redirects (nameless_append fault nameless))

theorem shape_of_valid {stage rest current : List Text} {p : Pipeline} (bars : ascii "|" ∉ stage)
    (amps : ascii "&" ∉ stage) (nameless : Nameless rest)
    (valid : (parseLoop (stage ++ rest) current p).valid = true) : StageShape stage := by
  rcases shape_or_nameless stage bars amps with
    shape | ⟨front, op, behind, rfl, shape, redirects, fault⟩
  · exact shape
  · rw [List.append_assoc, parseLoop_shape shape, List.cons_append,
      parseLoop_nameless redirects (nameless_append fault nameless)] at valid
    cases valid

theorem nameless_bar (rest : List Text) : Nameless (ascii "|" :: rest) := by
  rintro _ ⟨⟩
  decide

theorem parseLoop_bar {current : List Text} (some_word : current ≠ []) (tokens : List Text)
    (p : Pipeline) : parseLoop (ascii "|" :: tokens) current p =
      parseLoop tokens [] { p with commands := p.commands ++ [current] } := by
  rw [parseLoop.eq_def]
  simp only [if_true, if_neg some_word]

theorem parseLoop_bar_nil (tokens : List Text) (p : Pipeline) :
    (parseLoop (ascii "|" :: tokens) [] p).valid = false := by
  rw [parseLoop.eq_def]
  simp only [if_true, Pipeline.fail]

/-- A line with its checks passed is read up to its last stage. -/
theorem parseLoop_line {tokens : List Text} (amps : ascii "&" ∉ tokens)
    (named : RedirectionsNamed tokens)
    (early : ∀ stage ∈ (tokens.splitOn (ascii "|")).dropLast, commandWords false stage ≠ [])
    (tail : List Text) (p : Pipeline) :
    parseLoop (tokens ++ tail) [] p =
      parseLoop tail
        (commandWords false ((tokens.splitOn (ascii "|")).getLast (List.splitOn_ne_nil _ _)))
        ({ p with commands := p.commands ++
          (tokens.splitOn (ascii "|")).dropLast.map (commandWords false) }.redirect tokens) := by
  induction tokens using stages_induction generalizing p with
  | last stage own =>
      have nameless : Nameless [] := fun _ other => nomatch other
      have shape := shape_of_named own amps nameless ((List.append_nil stage).symm ▸ named)
      simp only [List.splitOn_eq_singleton own, List.getLast_singleton, List.dropLast_singleton,
        List.map_nil, List.append_nil]
      exact parseLoop_shape shape tail [] p
  | bar stage rest own ih =>
      have shape := shape_of_named own (fun inside => amps (List.mem_append_left _ inside))
        (nameless_bar rest) named
      have others : rest.splitOn (ascii "|") ≠ [] := List.splitOn_ne_nil _ _
      rw [named_append shape, named_cons_of_not_redirection (by decide)] at named
      simp only [List.splitOn_append_cons_self_of_not_mem own, List.getLast_cons others,
        List.dropLast_cons_of_ne_nil others, List.map_cons] at early ⊢
      obtain ⟨some_word, early⟩ := List.forall_mem_cons.mp early
      have amps : ascii "&" ∉ rest := fun inside =>
        amps (List.mem_append_right _ (List.mem_cons_of_mem _ inside))
      have inputs : targets (ascii "<") (stage ++ ascii "|" :: rest) =
          targets (ascii "<") stage ++ targets (ascii "<") rest := by
        rw [targets_append (by decide) (named_of_shape shape), targets_of_ne (by decide)]
      have outputs : targets (ascii ">") (stage ++ ascii "|" :: rest) =
          targets (ascii ">") stage ++ targets (ascii ">") rest := by
        rw [targets_append (by decide) (named_of_shape shape), targets_of_ne (by decide)]
      rw [List.append_assoc, parseLoop_shape shape, List.nil_append, List.cons_append,
        parseLoop_bar some_word, ih amps named early]
      simp only [Pipeline.redirect, inputs, outputs, getLastD_append, List.append_assoc,
        List.singleton_append]

/-- A line that is not reported has its checks passed. -/
theorem checks_of_valid {tokens : List Text} (amps : ascii "&" ∉ tokens) {tail : List Text}
    (nameless : Nameless tail) {p : Pipeline}
    (valid : (parseLoop (tokens ++ tail) [] p).valid = true) :
    RedirectionsNamed tokens ∧
      ∀ stage ∈ (tokens.splitOn (ascii "|")).dropLast, commandWords false stage ≠ [] := by
  induction tokens using stages_induction generalizing p with
  | last stage own =>
      have shape := shape_of_valid own amps nameless valid
      rw [List.splitOn_eq_singleton own, List.dropLast_singleton]
      exact ⟨named_of_shape shape, List.forall_mem_nil _⟩
  | bar stage rest own ih =>
      rw [List.append_assoc] at valid
      have shape := shape_of_valid own (fun inside => amps (List.mem_append_left _ inside))
        (nameless_bar (rest ++ tail)) valid
      have others : rest.splitOn (ascii "|") ≠ [] := List.splitOn_ne_nil _ _
      have amps : ascii "&" ∉ rest := fun inside =>
        amps (List.mem_append_right _ (List.mem_cons_of_mem _ inside))
      rw [parseLoop_shape shape, List.nil_append, List.cons_append] at valid
      rw [named_append shape, named_cons_of_not_redirection (by decide),
        List.splitOn_append_cons_self_of_not_mem own, List.dropLast_cons_of_ne_nil others,
        List.forall_mem_cons]
      by_cases some_word : commandWords false stage = []
      · rw [some_word, parseLoop_bar_nil] at valid
        cases valid
      · rw [parseLoop_bar some_word] at valid
        obtain ⟨named, early⟩ := ih amps valid
        exact ⟨named, some_word, early⟩

/-! ## The whole line -/

/-- The final `&`, if there is one. -/
def ampersand (tokens : List Text) : List Text :=
  if tokens.getLast? = some (ascii "&") then [ascii "&"] else []

theorem body_append (tokens : List Text) : body tokens ++ ampersand tokens = tokens := by
  rw [body, ampersand]
  split
  · rename_i last
    exact List.dropLast_append_getLast? _ last
  · exact List.append_nil tokens

theorem nameless_ampersand (tokens : List Text) : Nameless (ampersand tokens) := by
  rw [ampersand]
  split
  · rintro _ ⟨⟩
    decide
  · intro name other
    cases other

theorem parseLoop_amp (tokens current : List Text) (p : Pipeline) :
    parseLoop (ascii "&" :: tokens) current p =
      if tokens = [] then parseLoop tokens current { p with background := true }
      else p.fail "'&' must be the last token" := by
  have bar : ascii "&" ≠ ascii "|" := by decide
  have input : ascii "&" ≠ ascii "<" := by decide
  have output : ascii "&" ≠ ascii ">" := by decide
  rw [parseLoop.eq_def]
  simp only [if_neg bar, if_neg input, if_neg output, if_true]

theorem parseLoop_ampersand (tokens current : List Text) (p : Pipeline)
    (foreground : p.background = false) :
    parseLoop (ampersand tokens) current p =
      parseLoop [] current
        { p with background := decide (tokens.getLast? = some (ascii "&")) } := by
  rw [ampersand]
  split
  · rename_i last
    rw [parseLoop_amp, if_pos rfl, decide_eq_true last]
  · rename_i other
    rw [decide_eq_false other, ← foreground]

/-- An accepted line has no `&` but at its end. -/
theorem amps_of_valid {tokens : List Text} {p : Pipeline}
    (valid : (parseLoop tokens [] p).valid = true) : ascii "&" ∉ body tokens := by
  by_cases inside : ascii "&" ∈ tokens
  · obtain ⟨front, rest, rfl, own⟩ := List.eq_append_cons_of_mem inside
    have nameless : Nameless (ascii "&" :: rest) := by
      rintro _ ⟨⟩
      decide
    obtain ⟨named, early⟩ := checks_of_valid own nameless valid
    rw [parseLoop_line own named early, parseLoop_amp] at valid
    split at valid
    · rename_i last
      rw [last, body, List.getLast?_concat, if_pos rfl, List.dropLast_concat]
      exact own
    · cases valid
  · intro again
    rw [body] at again
    split at again
    · exact inside (List.mem_of_mem_dropLast again)
    · exact inside again

theorem named_body (tokens : List Text) :
    RedirectionsNamed (body tokens) ↔ RedirectionsNamed tokens := by
  have split := body_append tokens
  rw [ampersand] at split
  split at split
  · have named := named_append_operator (t := ascii "&") (by decide) (by decide) (body tokens) []
    rw [split] at named
    exact ⟨fun own => named.mpr ⟨own, trivial⟩, fun own => (named.mp own).1⟩
  · rw [List.append_nil] at split
    rw [split]

theorem targets_body {op : Text} (redirects : isRedirection op = true) {tokens : List Text}
    (named : RedirectionsNamed tokens) : targets op (body tokens) = targets op tokens := by
  have split := targets_append redirects ((named_body tokens).mpr named) (ampersand tokens)
  have none : targets op (ampersand tokens) = [] := by
    have other : ascii "&" ≠ op := by
      rintro rfl
      exact absurd redirects (by decide)
    rw [ampersand]
    split
    · exact targets_of_ne other []
    · rfl
  rw [body_append, none, List.append_nil] at split
  exact split.symm

theorem stagesOf_eq (tokens : List Text) :
    stagesOf tokens = (stagesOf tokens).dropLast ++ [lastStage tokens] :=
  (List.dropLast_append_getLast (List.splitOn_ne_nil _ _)).symm

theorem lastStage_mem (tokens : List Text) : lastStage tokens ∈ stagesOf tokens :=
  List.getLast_mem _

/-- What is left to do at the end of a line whose early checks have passed. -/
theorem parsePipeline_eq {line : Text} (named : RedirectionsNamed (lex line))
    (background : ascii "&" ∉ body (lex line))
    (early : ∀ stage ∈ (stagesOf (lex line)).dropLast, commandWords false stage ≠ []) :
    parsePipeline line = parseLoop [] (commandWords false (lastStage (lex line)))
      { commands := (stagesOf (lex line)).dropLast.map (commandWords false)
        input := (targets (ascii "<") (lex line)).getLastD []
        output := (targets (ascii ">") (lex line)).getLastD []
        background := decide ((lex line).getLast? = some (ascii "&"))
        valid := true
        error := [] } := by
  have split := body_append (lex line)
  rw [parsePipeline]
  conv_lhs => rw [← split]
  rw [parseLoop_line background ((named_body _).mpr named) early, parseLoop_ampersand _ _ _ rfl]
  simp only [Pipeline.redirect,
    targets_body (show isRedirection (ascii "<") = true by decide) named,
    targets_body (show isRedirection (ascii ">") = true by decide) named]
  rfl

theorem ne_nil_of_mem_flush {cur t : Text} (inside : t ∈ flush cur) : t ≠ [] := by
  rw [flush] at inside
  split at inside
  · cases inside
  · rename_i nonempty
    exact List.mem_singleton.mp inside ▸ nonempty

theorem ne_nil_of_mem_lexLoop {line cur t : Text} (inside : t ∈ lexLoop line cur) : t ≠ [] := by
  induction line generalizing cur with
  | nil => exact ne_nil_of_mem_flush inside
  | cons c line ih =>
      rw [lexLoop] at inside
      split at inside
      · rcases List.mem_append.mp inside with flushed | later
        · exact ne_nil_of_mem_flush flushed
        · exact ih later
      · split at inside
        · rcases List.mem_append.mp inside with flushed | later
          · exact ne_nil_of_mem_flush flushed
          · rcases List.mem_cons.mp later with rfl | later
            · exact List.cons_ne_nil c []
            · exact ih later
        · exact ih inside

theorem getLastD_targets {op line : Text} :
    (targets op (lex line)).getLastD [] = [] ↔ targets op (lex line) = [] := by
  constructor
  · intro last
    by_contra nonempty
    have inside := List.getLast_mem nonempty
    have same : (targets op (lex line)).getLastD [] = (targets op (lex line)).getLast nonempty := by
      rw [List.getLastD_eq_getLast?, List.getLast?_eq_some_getLast nonempty]
      rfl
    rw [same] at last
    exact ne_nil_of_mem_lexLoop (mem_of_mem_targets (last ▸ inside)) rfl
  · intro none
    rw [none]
    rfl

/-- The end of the line. -/
theorem parseLoop_nil (current : List Text) (p : Pipeline) :
    parseLoop [] current p =
      if (p.commands = [] ∧ current = []) ∧ (p.input ≠ [] ∨ p.output ≠ []) then
        p.fail "redirection without a command"
      else { p with commands := p.commands ++ if current = [] then [] else [current] } := by
  rw [parseLoop]
  by_cases empty : current = []
  · simp only [empty, if_true, and_true, List.append_nil]
  · have some_command : p.commands ++ [current] ≠ [] :=
      List.append_ne_nil_of_right_ne_nil _ (List.cons_ne_nil _ _)
    simp only [empty, and_false, false_and, if_false, some_command]

/-- The line has a command. -/
theorem exists_command_iff {tokens : List Text}
    (early : ∀ stage ∈ (stagesOf tokens).dropLast, commandWords false stage ≠ []) :
    (∃ stage ∈ stagesOf tokens, commandWords false stage ≠ []) ↔
      ¬ ((stagesOf tokens).dropLast.map (commandWords false) = [] ∧
        commandWords false (lastStage tokens) = []) := by
  rw [List.map_eq_nil_iff]
  have stages := stagesOf_eq tokens
  constructor
  · rintro ⟨stage, inside, some_word⟩ ⟨single, empty⟩
    rw [single] at stages
    rw [stages] at inside
    exact some_word (List.mem_singleton.mp inside ▸ empty)
  · intro some_command
    by_cases single : (stagesOf tokens).dropLast = []
    · exact ⟨lastStage tokens, lastStage_mem tokens, fun empty => some_command ⟨single, empty⟩⟩
    · obtain ⟨stage, inside⟩ := List.exists_mem_of_ne_nil _ single
      exact ⟨stage, List.mem_of_mem_dropLast inside, early stage inside⟩

theorem no_redirection_iff {line : Text} (named : RedirectionsNamed (lex line)) :
    (∀ t ∈ lex line, isRedirection t = false) ↔
      ¬ ((targets (ascii "<") (lex line)).getLastD [] ≠ [] ∨
        (targets (ascii ">") (lex line)).getLastD [] ≠ []) := by
  rw [not_or, not_not, not_not, getLastD_targets, getLastD_targets,
    targets_eq_nil_iff (by decide) named, targets_eq_nil_iff (by decide) named]
  constructor
  · intro plain
    exact ⟨fun inside => absurd (plain _ inside) (by decide),
      fun inside => absurd (plain _ inside) (by decide)⟩
  · rintro ⟨input, output⟩ t inside
    refine Bool.eq_false_iff.mpr fun redirects => ?_
    rcases isRedirection_iff.mp redirects with rfl | rfl
    · exact input inside
    · exact output inside

/-- The parser accepts a line just when the faults that it looks for are absent. -/
theorem valid_iff_checked (line : Text) :
    (parsePipeline line).valid = true ↔ Checked (lex line) := by
  have result : ∀ (named : RedirectionsNamed (lex line)) (background : ascii "&" ∉ body (lex line))
      (early : ∀ stage ∈ (stagesOf (lex line)).dropLast, commandWords false stage ≠ []),
      (parsePipeline line).valid = true ↔
        (∃ stage ∈ stagesOf (lex line), commandWords false stage ≠ []) ∨
          ∀ t ∈ lex line, isRedirection t = false := by
    intro named background early
    rw [exists_command_iff early, no_redirection_iff named, ← not_and_or,
      parsePipeline_eq named background early, parseLoop_nil]
    split
    · rename_i fault
      exact iff_of_false Bool.false_ne_true (not_not_intro fault)
    · rename_i fine
      exact iff_of_true rfl fine
  constructor
  · intro valid
    have background := amps_of_valid valid
    have whole := valid
    rw [parsePipeline, ← body_append (lex line)] at whole
    obtain ⟨named, early⟩ := checks_of_valid background (nameless_ampersand _) whole
    have named := (named_body _).mp named
    exact ⟨named, background, early, (result named background early).mp valid⟩
  · rintro ⟨named, background, early, command⟩
    exact (result named background early).mpr command

/-- What the parser returns for an accepted line. -/
theorem parsePipeline_of_checked {line : Text} (checked : Checked (lex line)) :
    parsePipeline line =
      { commands := (stagesOf (lex line)).dropLast.map (commandWords false) ++
          if commandWords false (lastStage (lex line)) = [] then []
          else [commandWords false (lastStage (lex line))]
        input := (targets (ascii "<") (lex line)).getLastD []
        output := (targets (ascii ">") (lex line)).getLastD []
        background := decide ((lex line).getLast? = some (ascii "&"))
        valid := true
        error := [] } := by
  obtain ⟨named, background, early, command⟩ := checked
  rw [exists_command_iff early, no_redirection_iff named, ← not_and_or] at command
  rw [parsePipeline_eq named background early, parseLoop_nil, if_neg command]

theorem length_targets_le (op : Text) (tokens : List Text) :
    (targets op tokens).length ≤ tokens.count op := by
  induction tokens with
  | nil => exact le_rfl
  | cons t tokens ih =>
      have head :
          (if t = op then tokens.head?.toList else []).length ≤ if t == op then 1 else 0 := by
        by_cases same : t = op
        · rw [if_pos same, if_pos (beq_iff_eq.mpr same)]
          cases tokens <;> simp
        · rw [if_neg same]
          exact Nat.zero_le _
      rw [targets, List.length_append, List.count_cons, Nat.add_comm]
      exact Nat.add_le_add ih head

theorem getLastD_eq_headD {list : List Text} (single : list.length ≤ 1) :
    list.getLastD [] = list.headD [] := by
  match list, single with
  | [], _ => rfl
  | [_], _ => rfl
  | _ :: _ :: _, many => exact absurd many (by simp)

/-- The parser keeps its promise just when a line that passes its checks also has a command in its
last stage and its redirections in their places. -/
theorem accepts_only_wellFormed_iff (line : Text) :
    AcceptsOnlyWellFormed line ↔
      (Checked (lex line) → lex line = [] ∨
        commandWords false (lastStage (lex line)) ≠ [] ∧ Placed (lex line)) := by
  have last := lastStage_mem (lex line)
  constructor
  · rintro ⟨accepted, rejected⟩ checked
    have valid := (valid_iff_checked line).mpr checked
    by_cases blank : lex line = []
    · exact .inl blank
    · have some_word : commandWords false (lastStage (lex line)) ≠ [] := fun empty =>
        Bool.false_ne_true ((rejected blank ⟨_, last, empty⟩).symm.trans valid)
      have commands : (parsePipeline line).commands ≠ [] := by
        rw [parsePipeline_of_checked checked, if_neg some_word]
        exact List.append_ne_nil_of_right_ne_nil _ (List.cons_ne_nil _ _)
      exact .inr ⟨some_word, (accepted valid commands).1.toPlaced⟩
  · intro placed
    have each (checked : Checked (lex line))
        (some_word : commandWords false (lastStage (lex line)) ≠ []) :
        ∀ stage ∈ stagesOf (lex line), commandWords false stage ≠ [] := by
      rw [stagesOf_eq (lex line)]
      exact List.forall_mem_append.mpr ⟨checked.early, List.forall_mem_singleton.mpr some_word⟩
    constructor
    · intro valid commands
      have checked := (valid_iff_checked line).mp valid
      have result := parsePipeline_of_checked checked
      rcases placed checked with blank | ⟨some_word, placed⟩
      · rw [parsePipeline, blank] at commands
        exact absurd rfl commands
      · have input := (length_targets_le (ascii "<") (lex line)).trans placed.oneInput
        have output := (length_targets_le (ascii ">") (lex line)).trans placed.oneOutput
        refine ⟨⟨placed, each checked some_word, checked.named, checked.background⟩, ?_⟩
        rw [result, if_neg some_word]
        refine ⟨?_, getLastD_eq_headD input, getLastD_eq_headD output, rfl⟩
        conv_rhs => rw [stagesOf_eq (lex line)]
        rw [List.map_append, List.map_singleton]
    · rintro nonblank ⟨stage, inside, empty⟩
      by_contra valid
      have checked := (valid_iff_checked line).mp (eq_true_of_ne_false valid)
      rcases placed checked with blank | ⟨some_word, _⟩
      · exact nonblank blank
      · exact each checked some_word stage inside empty

/-- A line whose last stage is empty is accepted. -/
theorem accepts_emptyStage : ¬ AcceptsOnlyWellFormed (ascii "ls |") := by
  rintro ⟨_, rejected⟩
  have valid : (parsePipeline (ascii "ls |")).valid = true := by decide
  have stages : stagesOf (lex (ascii "ls |")) = [[ascii "ls"], []] := by decide
  have invalid := rejected (by decide) ⟨[], by simp [stages], rfl⟩
  exact Bool.false_ne_true (invalid.symm.trans valid)

end Shell
end Syscore
