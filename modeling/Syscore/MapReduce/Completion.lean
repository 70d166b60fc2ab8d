import Syscore.MapReduce.Runs

/-!
# Complete runs exist

From every state that a run reaches the tasks can be finished, one after another. Started afresh,
the reduce tasks may be finished in any order, and each leaves its file as if it ran alone.
-/

namespace Syscore
namespace MapReduce

variable {job : Job} {disk : Text → Option Text}

/-- One step of a run. -/
theorem leads_single {state next : State} (action : Action)
    (stepped : step job state action = some next) :
    (machine job disk).Leads .free state next :=
  .single ⟨action, trivial, stepped⟩

/-! ## Map tasks -/

/-- The rest of the last loop of a map task. -/
theorem finish_appending {state : State} {m r : ℕ} (known : m < job.M)
    (appending : state.maps m = .appending r) :
    ∃ final, (machine job disk).Leads .free state final ∧
      final.maps = Function.update state.maps m .done ∧ final.reduces = state.reduces ∧
        final.files = state.files := by
  induction left : job.R - r generalizing state r with
  | zero =>
      have beyond : ¬ r < job.R := by omega
      let next : State := { state with maps := Function.update state.maps m .done }
      have stepped : step job state (.map m) = some next := by
        rw [step, if_pos known, mapStep, appending]
        exact if_neg beyond
      exact ⟨next, leads_single _ stepped, rfl, rfl, rfl⟩
  | succ left ih =>
      have inside : r < job.R := by omega
      let next : State :=
        { state with
          partitions := Function.update state.partitions r (state.partitions r ++ job.localPart m r)
          maps := Function.update state.maps m (.appending (r + 1)) }
      have stepped : step job state (.map m) = some next := by
        rw [step, if_pos known, mapStep, appending]
        exact if_pos inside
      have later : next.maps m = .appending (r + 1) := Function.update_self m _ _
      obtain ⟨final, rest, maps, kept⟩ := ih later (by omega)
      refine ⟨final, (leads_single _ stepped).trans rest, ?_, kept⟩
      rw [maps, Function.update_idem]

/-- A map task can be finished. -/
theorem finish_map (state : State) {m : ℕ} (known : m < job.M) :
    ∃ final, (machine job disk).Leads .free state final ∧
      final.maps = Function.update state.maps m .done ∧ final.reduces = state.reduces ∧
        final.files = state.files := by
  cases task : state.maps m with
  | done => exact ⟨state, .refl, by rw [← task, Function.update_eq_self], rfl, rfl⟩
  | appending r => exact finish_appending known task
  | ready =>
      by_cases empty : job.chunk m = []
      · let next : State := { state with maps := Function.update state.maps m .done }
        have stepped : step job state (.map m) = some next := by
          rw [step, if_pos known, mapStep, task]
          simp only [empty, if_true]
          rfl
        exact ⟨next, leads_single _ stepped, rfl, rfl, rfl⟩
      · let next : State := { state with maps := Function.update state.maps m (.appending 0) }
        have stepped : step job state (.map m) = some next := by
          rw [step, if_pos known, mapStep, task]
          simp only [empty, if_false]
          rfl
        have later : next.maps m = .appending 0 := Function.update_self m _ _
        obtain ⟨final, rest, maps, kept⟩ := finish_appending known later
        refine ⟨final, (leads_single _ stepped).trans rest, ?_, kept⟩
        rw [maps, Function.update_idem]

/-- All map tasks can be finished. -/
theorem finish_maps (disk : Text → Option Text) (state : State) :
    ∃ final, (machine job disk).Leads .free state final ∧ final.Mapped job ∧
      final.reduces = state.reduces ∧ final.files = state.files := by
  have some_maps (n : ℕ) (bound : n ≤ job.M) :
      ∃ final, (machine job disk).Leads .free state final ∧ (∀ m < n, final.maps m = .done) ∧
        final.reduces = state.reduces ∧ final.files = state.files := by
    induction n with
    | zero => exact ⟨state, .refl, fun m none => absurd none (Nat.not_lt_zero m), rfl, rfl⟩
    | succ n ih =>
        obtain ⟨before, leads, done, reduces, files⟩ := ih (by omega)
        obtain ⟨final, last, maps, reduces', files'⟩ :=
          finish_map before (show n < job.M from bound)
        refine ⟨final, leads.trans last, fun m small => ?_, reduces'.trans reduces,
          files'.trans files⟩
        rw [maps]
        by_cases same : m = n
        · rw [same, Function.update_self]
        · rw [Function.update_of_ne same]
          exact done m (by omega)
  exact some_maps job.M le_rfl

/-! ## Reduce tasks -/

section Reduce

variable {state : State} {r : ℕ} (small : r < job.R) (mapped : state.Mapped job)

include small mapped

/-- The rest of the writes of a reduce task. -/
theorem finish_writing {reduced : Text} {written : ℕ}
    (writing : state.reduces r = .writing reduced written) (bounded : written ≤ reduced.length) :
    ∃ final, (machine job disk).Leads .free state final ∧ final.maps = state.maps ∧
      final.partitions = state.partitions ∧
        final.reduces = Function.update state.reduces r .done ∧
          (state.files (job.path r) = some (reduced.take written) →
            final.files = Function.update state.files (job.path r) (some reduced)) := by
  by_cases finished : written = reduced.length
  · let next : State := { state with reduces := Function.update state.reduces r .done }
    have stepped : step job state (.reduce r) = some next := by
      rw [step, if_pos ⟨small, mapped⟩, reduceStep, writing]
      exact if_pos finished
    refine ⟨next, leads_single _ stepped, rfl, rfl, rfl, fun file => ?_⟩
    rw [finished, List.take_length] at file
    rw [← file, Function.update_eq_self]
  · have count : 0 < reduced.length - written ∧
        written + (reduced.length - written) ≤ reduced.length := by omega
    let next : State :=
      { state with
        files := Function.update state.files (job.path r)
          (some (overwrite ((state.files (job.path r)).getD []) written
            ((reduced.drop written).take (reduced.length - written))))
        reduces := Function.update state.reduces r
          (.writing reduced (written + (reduced.length - written))) }
    let final : State := { next with reduces := Function.update next.reduces r .done }
    have stepped : step job state (.write r (reduced.length - written)) = some next := by
      rw [step, if_pos ⟨small, mapped⟩, writeStep, writing]
      exact if_pos count
    have closed : step job next (.reduce r) = some final := by
      have later : next.reduces r = .writing reduced (written + (reduced.length - written)) :=
        Function.update_self r _ _
      rw [step, if_pos ⟨small, show next.Mapped job from mapped⟩, reduceStep, later]
      exact if_pos (by omega)
    refine ⟨final, (leads_single _ stepped).trans (leads_single _ closed), rfl, rfl, ?_,
      fun file => ?_⟩
    · exact Function.update_idem _ _ _
    · change Function.update _ _ _ = _
      rw [file, Option.getD_some, overwrite_take reduced count.2,
        List.take_of_length_le (by omega)]

theorem finish_opening {reduced : Text} (opening : state.reduces r = .opening reduced) :
    ∃ final, (machine job disk).Leads .free state final ∧ final.maps = state.maps ∧
      final.partitions = state.partitions ∧
        final.reduces = Function.update state.reduces r .done ∧
          final.files = if job.opens (job.path r) then
            Function.update state.files (job.path r) (some reduced) else state.files := by
  by_cases opens : job.opens (job.path r) = true
  · let next : State :=
      { state with
        files := Function.update state.files (job.path r) (some [])
        reduces := Function.update state.reduces r (.writing reduced 0) }
    have stepped : step job state (.reduce r) = some next := by
      rw [step, if_pos ⟨small, mapped⟩, reduceStep, opening]
      exact if_pos opens
    have later : next.reduces r = .writing reduced 0 := Function.update_self r _ _
    obtain ⟨final, rest, maps, partitions, reduces, files⟩ :=
      finish_writing small (show next.Mapped job from mapped) later (Nat.zero_le _)
    refine ⟨final, (leads_single _ stepped).trans rest, maps, partitions, ?_, ?_⟩
    · rw [reduces, Function.update_idem]
    · rw [files (Function.update_self _ _ _), if_pos opens, Function.update_idem]
  · let next : State := { state with reduces := Function.update state.reduces r .done }
    have stepped : step job state (.reduce r) = some next := by
      rw [step, if_pos ⟨small, mapped⟩, reduceStep, opening]
      exact if_neg opens
    exact ⟨next, leads_single _ stepped, rfl, rfl, rfl, (if_neg opens).symm⟩

/-- A reduce task can be finished; one that is not begun leaves its file as if it ran alone. -/
theorem finish_reduce (bounded : ∀ reduced written,
      state.reduces r = .writing reduced written → written ≤ reduced.length) :
    ∃ final, (machine job disk).Leads .free state final ∧ final.maps = state.maps ∧
      final.partitions = state.partitions ∧
        final.reduces = Function.update state.reduces r .done ∧
          (state.reduces r = .ready → final.files = if job.opens (job.path r) then
            Function.update state.files (job.path r) (some (job.reduced (state.partitions r)))
              else state.files) := by
  cases task : state.reduces r with
  | ready =>
      let next : State :=
        { state with
          reduces := Function.update state.reduces r (.opening (job.reduced (state.partitions r)))
          inputs := Function.update state.inputs r (some (reduceInput (state.partitions r))) }
      have stepped : step job state (.reduce r) = some next := by
        rw [step, if_pos ⟨small, mapped⟩, reduceStep, task]
      have later : next.reduces r = .opening (job.reduced (state.partitions r)) :=
        Function.update_self r _ _
      obtain ⟨final, rest, maps, partitions, reduces, files⟩ :=
        finish_opening small (show next.Mapped job from mapped) later
      refine ⟨final, (leads_single _ stepped).trans rest, maps, partitions, ?_, fun _ => files⟩
      rw [reduces, Function.update_idem]
  | opening reduced =>
      obtain ⟨final, rest, maps, partitions, reduces, _⟩ := finish_opening small mapped task
      exact ⟨final, rest, maps, partitions, reduces, fun ready => by cases ready⟩
  | writing reduced written =>
      obtain ⟨final, rest, maps, partitions, reduces, _⟩ :=
        finish_writing small mapped task (bounded reduced written task)
      exact ⟨final, rest, maps, partitions, reduces, fun ready => by cases ready⟩
  | done =>
      refine ⟨state, .refl, rfl, rfl, ?_, fun ready => by cases ready⟩
      rw [← task, Function.update_eq_self]

end Reduce

/-- Reduce tasks can be finished in any order. -/
theorem finish_reduces {state : State} (mapped : state.Mapped job) {order : List ℕ}
    (nodup : order.Nodup) (small : ∀ r ∈ order, r < job.R)
    (bounded : ∀ r ∈ order, ∀ reduced written,
      state.reduces r = .writing reduced written → written ≤ reduced.length) :
    ∃ final, (machine job disk).Leads .free state final ∧ final.maps = state.maps ∧
      (∀ r ∈ order, final.reduces r = .done) ∧
        (∀ r ∉ order, final.reduces r = state.reduces r) ∧
          ((∀ r ∈ order, state.reduces r = .ready ∧
              job.reduced (state.partitions r) = job.sequentialOutput r) →
            final.files = order.foldl job.writeFile state.files) := by
  induction order generalizing state with
  | nil => exact ⟨state, .refl, rfl, List.forall_mem_nil _, fun _ _ => rfl, fun _ => rfl⟩
  | cons r order ih =>
      obtain ⟨fresh, nodup⟩ := List.nodup_cons.mp nodup
      obtain ⟨next, first, maps, partitions, reduces, files⟩ :=
        finish_reduce (small r List.mem_cons_self) mapped (bounded r List.mem_cons_self)
      have kept {other : ℕ} (apart : other ≠ r) : next.reduces other = state.reduces other := by
        rw [reduces, Function.update_of_ne apart]
      have apart {other : ℕ} (inside : other ∈ order) : other ≠ r := by
        rintro rfl
        exact fresh inside
      have mapped' : next.Mapped job := fun m known => by rw [maps]; exact mapped m known
      obtain ⟨final, rest, maps', done, others, files'⟩ := ih mapped' nodup
        (fun other inside => small other (List.mem_cons_of_mem r inside))
        (fun other inside => by
          rw [kept (apart inside)]
          exact bounded other (List.mem_cons_of_mem r inside))
      refine ⟨final, first.trans rest, maps'.trans maps, fun other inside => ?_,
        fun other outside => ?_, fun ready => ?_⟩
      · rcases List.mem_cons.mp inside with rfl | later
        · rw [others other fresh, reduces, Function.update_self]
        · exact done other later
      · obtain ⟨different, outside⟩ := not_or.mp (mt List.mem_cons.mpr outside)
        rw [others other outside, kept different]
      · obtain ⟨own, output⟩ := ready r List.mem_cons_self
        have alone : next.files = job.writeFile state.files r := by
          rw [files own, output, Job.writeFile]
        rw [List.foldl_cons, ← alone]
        apply files'
        intro other inside
        obtain ⟨untouched, same⟩ := ready other (List.mem_cons_of_mem r inside)
        rw [kept (apart inside), partitions]
        exact ⟨untouched, same⟩

/-- Every run can be completed. -/
theorem can_complete {state : State} (reach : (machine job disk).Reachable .free state) :
    ∃ final, (machine job disk).Leads .free state final ∧ final.Complete job := by
  obtain ⟨before, leads, mapped, _⟩ := finish_maps disk state
  have faithful := faithful_of_reachable (reach.trans leads)
  obtain ⟨final, rest, maps, done, _⟩ := finish_reduces mapped List.nodup_range
    (fun r inside => List.mem_range.mp inside) fun r inside reduced written writing => by
      have progress := faithful.progress r (List.mem_range.mp inside)
      rw [writing] at progress
      exact progress.2.2.2.1
  exact ⟨final, leads.trans rest, fun m known => by rw [maps]; exact mapped m known,
    fun r inside => done r (List.mem_range.mpr inside)⟩

/-- A complete run with the reduce tasks one after another, in any order. -/
theorem complete_run {order : List ℕ} (all : order.Perm (List.range job.R))
    (disk : Text → Option Text) :
    ∃ final, (machine job disk).Reachable .free final ∧ final.Complete job ∧
      final.files = order.foldl job.writeFile disk := by
  let start : State := ⟨fun _ => [], fun _ => .ready, fun _ => .ready, disk, fun _ => none⟩
  have started : (machine job disk).Reachable .free start := .of_start rfl
  obtain ⟨before, leads, mapped, reduces, files⟩ := finish_maps disk start
  have faithful := faithful_of_reachable (started.trans leads)
  have inRange {r : ℕ} (inside : r ∈ order) : r < job.R := List.mem_range.mp (all.mem_iff.mp inside)
  have ready (r : ℕ) : before.reduces r = .ready := by rw [reduces]
  obtain ⟨final, rest, maps, done, _, written⟩ := finish_reduces mapped
    (all.nodup_iff.mpr List.nodup_range) (fun r inside => inRange inside)
    fun r inside reduced written writing => by
      rw [ready] at writing
      cases writing
  refine ⟨final, (started.trans leads).trans rest,
    ⟨fun m known => by rw [maps]; exact mapped m known,
      fun r inside => done r (all.mem_iff.mpr (List.mem_range.mpr inside))⟩, ?_⟩
  rw [written fun r inside => ⟨ready r, ?_⟩, files]
  obtain ⟨gathered, perm, partition⟩ := faithful.gathered.perm mapped (inRange inside)
  rw [partition, job.reduced_gather perm]
  rfl

end MapReduce
end Syscore
