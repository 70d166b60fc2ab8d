import Syscore.MapReduce.Model

/-!
# The shuffle is canonical

A partition is made of whole lines in the order in which the map tasks happened to append them. The
reducer reads the sorted lines, which that order does not change.
-/

namespace Syscore
namespace MapReduce

/-! ## Sorting -/

theorem textLE_trans (first second third : Text) (left : textLE first second = true)
    (right : textLE second third = true) : textLE first third = true :=
  Std.TransCmp.isLE_trans left right

theorem textLE_total (left right : Text) : (textLE left right || textLE right left) = true := by
  have swap : compare right left = (compare left right).swap := Std.OrientedCmp.eq_swap
  rw [textLE, textLE, swap]
  cases compare left right <;> rfl

theorem textLE_antisymm {left right : Text} (forward : textLE left right = true)
    (backward : textLE right left = true) : left = right := by
  have swap : compare right left = (compare left right).swap := Std.OrientedCmp.eq_swap
  rw [textLE] at forward
  rw [textLE, swap] at backward
  cases order : compare left right with
  | eq => exact Std.LawfulEqCmp.eq_of_compare order
  | lt =>
      rw [order] at backward
      cases backward
  | gt =>
      rw [order] at forward
      cases forward

/-- Sorting forgets the order. -/
theorem mergeSort_textLE_perm {left right : List Text} (same : left.Perm right) :
    left.mergeSort textLE = right.mergeSort textLE :=
  List.Perm.eq_of_pairwise (fun _ _ _ _ => textLE_antisymm)
    (List.pairwise_mergeSort textLE_trans textLE_total left)
    (List.pairwise_mergeSort textLE_trans textLE_total right)
    ((List.mergeSort_perm left textLE).trans (same.trans (List.mergeSort_perm right textLE).symm))

/-! ## Partitions -/

namespace Job

variable (job : Job)

theorem routed_newline {m r : ℕ} {kv : Text} (inside : kv ∈ job.routed m r) : newline ∉ kv := by
  rw [routed] at inside
  split at inside
  · cases inside
  · exact newline_notMem_of_getlines (List.mem_of_mem_filter inside)

/-- The partition that map tasks append to in this order. -/
def gather (order : List ℕ) (r : ℕ) : Text := order.flatMap fun m => job.localPart m r

/-- The lines of a partition are the emitted lines, whoever appended first. -/
theorem getlines_gather (order : List ℕ) (r : ℕ) :
    getlines (job.gather order r) = order.flatMap fun m => job.routed m r := by
  have whole : job.gather order r =
      joinLines (order.flatMap fun m => job.routed m r) ++ [] := by
    rw [gather, joinLines, List.flatMap_assoc, List.append_nil]
    rfl
  have free : ∀ line ∈ order.flatMap fun m => job.routed m r, newline ∉ line := by
    intro line inside
    obtain ⟨m, _, emitted⟩ := List.mem_flatMap.mp inside
    exact job.routed_newline emitted
  rw [whole, joinLines, getlines_append free, getlines, if_pos rfl, List.append_nil]

/-- Two orders of the same map tasks feed the reducer the same bytes. -/
theorem reduceInput_gather {order order' : List ℕ} (same : order.Perm order') (r : ℕ) :
    reduceInput (job.gather order r) = reduceInput (job.gather order' r) := by
  have lines : ((getlines (job.gather order r)).filter (· ≠ [])).Perm
      ((getlines (job.gather order' r)).filter (· ≠ [])) := by
    rw [getlines_gather, getlines_gather]
    exact (same.flatMap_right fun m => job.routed m r).filter _
  rw [reduceInput, reduceInput, mergeSort_textLE_perm lines]

theorem reduced_gather {order order' : List ℕ} (same : order.Perm order') (r : ℕ) :
    job.reduced (job.gather order r) = job.reduced (job.gather order' r) := by
  rw [reduced, reduced, job.reduceInput_gather same]

end Job

/-! ## The map phase -/

/-- The map task has passed partition `r`. -/
def MapTask.Past (r : ℕ) : MapTask → Prop
  | ready => False
  | appending next => r < next
  | done => True

/-- Every partition holds the output of the map tasks that have passed it. -/
def Gathered (job : Job) (state : State) : Prop :=
  ∀ r < job.R, ∃ order, order.Nodup ∧ state.partitions r = job.gather order r ∧
    ∀ m, m ∈ order ↔ m < job.M ∧ (state.maps m).Past r

/-- A map task that moves on without passing a partition, or with nothing to append to it. -/
theorem gathered_update {job : Job} {state : State} {m r : ℕ} {next : MapTask}
    (gathered : ∃ order, order.Nodup ∧ state.partitions r = job.gather order r ∧
      ∀ m, m ∈ order ↔ m < job.M ∧ (state.maps m).Past r)
    (same : next.Past r ↔ (state.maps m).Past r) :
    ∃ order, order.Nodup ∧ state.partitions r = job.gather order r ∧
      ∀ other, other ∈ order ↔
        other < job.M ∧ (Function.update state.maps m next other).Past r := by
  obtain ⟨order, nodup, partition, members⟩ := gathered
  refine ⟨order, nodup, partition, fun other => ?_⟩
  rw [members]
  by_cases here : other = m
  · subst here
    rw [Function.update_self, same]
  · rw [Function.update_of_ne here]

/-- A map task that passes a partition, with what it appends to it. -/
theorem gathered_append {job : Job} {state : State} {m r : ℕ} {next : MapTask} (known : m < job.M)
    (gathered : ∃ order, order.Nodup ∧ state.partitions r = job.gather order r ∧
      ∀ m, m ∈ order ↔ m < job.M ∧ (state.maps m).Past r)
    (before : ¬ (state.maps m).Past r) (after : next.Past r) :
    ∃ order, order.Nodup ∧ state.partitions r ++ job.localPart m r = job.gather order r ∧
      ∀ other, other ∈ order ↔
        other < job.M ∧ (Function.update state.maps m next other).Past r := by
  obtain ⟨order, nodup, partition, members⟩ := gathered
  have fresh : m ∉ order := fun inside => before ((members m).mp inside).2
  refine ⟨order ++ [m], nodup.append (List.nodup_singleton m) (by simpa using fresh), ?_,
    fun other => ?_⟩
  · rw [partition, Job.gather, Job.gather, List.flatMap_append, List.flatMap_singleton]
  · rw [List.mem_append, List.mem_singleton, members]
    by_cases here : other = m
    · subst here
      rw [Function.update_self]
      exact ⟨fun _ => ⟨known, after⟩, fun _ => Or.inr rfl⟩
    · rw [Function.update_of_ne here]
      exact or_iff_left here

/-- A map task keeps the partitions gathered. -/
theorem Gathered.mapStep {job : Job} {state next : State} {m : ℕ} (known : m < job.M)
    (gathered : Gathered job state) (stepped : mapStep job state m = some next) :
    Gathered job next := by
  intro r small
  have here := gathered r small
  rw [MapReduce.mapStep] at stepped
  split at stepped
  · rename_i ready
    obtain rfl := Option.some.inj stepped
    by_cases empty : job.chunk m = []
    · have nothing : job.localPart m r = [] := by
        rw [Job.localPart, Job.routed, if_pos empty]
        rfl
      have appended := gathered_append known here (by rw [ready]; exact id)
        (show MapTask.done.Past r from trivial)
      rw [nothing, List.append_nil] at appended
      simp only [empty, if_true]
      exact appended
    · simp only [empty, if_false]
      exact gathered_update here (by rw [ready]; exact iff_of_false (Nat.not_lt_zero r) id)
  · rename_i k appending
    split at stepped
    · obtain rfl := Option.some.inj stepped
      by_cases same : r = k
      · subst same
        simp only [Function.update_self]
        exact gathered_append known here (by rw [appending]; exact Nat.lt_irrefl r)
          (Nat.lt_succ_self r)
      · simp only [Function.update_of_ne same]
        refine gathered_update here ?_
        rw [appending]
        exact ⟨fun (past : r < k + 1) => show r < k by omega, fun (past : r < k) =>
          show r < k + 1 by omega⟩
    · rename_i beyond
      obtain rfl := Option.some.inj stepped
      refine gathered_update here ?_
      rw [appending]
      exact ⟨fun _ => show r < k by omega, fun _ => trivial⟩
  · cases stepped

/-- Behind the barrier a partition holds the output of all map tasks, in some order. -/
theorem Gathered.perm {job : Job} {state : State} (gathered : Gathered job state)
    (mapped : state.Mapped job) {r : ℕ} (small : r < job.R) :
    ∃ order, order.Perm (List.range job.M) ∧ state.partitions r = job.gather order r := by
  obtain ⟨order, nodup, partition, members⟩ := gathered r small
  refine ⟨order, (List.perm_ext_iff_of_nodup nodup List.nodup_range).mpr fun m => ?_, partition⟩
  rw [members, List.mem_range]
  refine and_iff_left_of_imp fun known => ?_
  rw [mapped m known]
  trivial

end MapReduce
end Syscore
