import CommentErasure.CommandLine

namespace CommentErasure.CommandLine

theorem path?_eq_some_iff {arguments : List Bytes} {services : Services} {path : Bytes} :
    path? arguments services = some path ↔ ∃ program, arguments = [program, path] := by
  constructor
  · intro isPath
    match arguments, isPath with
    | [program, _], isPath =>
        rw [path?, services.value?_separated] at isPath
        cases isPath
        exact ⟨program, rfl⟩
  · intro pair
    obtain ⟨program, rfl⟩ := pair
    exact services.value?_separated program path

theorem path?_eq_none_iff {arguments : List Bytes} {services : Services} :
    path? arguments services = none ↔ arguments.length ≠ 2 := by
  match arguments with
  | [] => simp [path?]
  | [_] => simp [path?]
  | [_, _] => simp [path?, services.value?_separated]
  | _ :: _ :: _ :: _ => simp [path?]

theorem calledAs_eq (arguments : List Bytes) :
    calledAs arguments = (arguments.head?.map Utf8.decodeLossy).getD "decomment".toList := by
  cases arguments <;> rfl

/-! ## The two kinds of runs -/

theorem stdout_usageOutput (arguments : List Bytes) :
    (usageOutput arguments).stdout =
      "Usage: ".toList ++ (arguments.head?.map Utf8.decodeLossy).getD "decomment".toList ++
        " <file_path>".toList ++ ['\n'] := by
  rw [← calledAs_eq]
  rfl

theorem run_of_not_pair
    {arguments : List Bytes} (notPair : arguments.length ≠ 2)
    (tree : FileTree) (colored : Bool) (limit : Option Nat) (services : Services) :
    run tree arguments colored limit services = ⟨tree, usageOutput arguments⟩ := by
  rw [run, path?_eq_none_iff.mpr notPair]

theorem run_pair
    (tree : FileTree) (program path : Bytes) (colored : Bool) (limit : Option Nat)
    (services : Services) :
    run tree [program, path] colored limit services =
      ⟨(tree.eraseComments path limit).tree,
        resultOutput colored (tree.eraseComments path limit).failure services⟩ := by
  rw [run, path?_eq_some_iff.mpr ⟨program, rfl⟩]

section Output

variable (colored : Bool) (services : Services)

theorem stdout_resultOutput_eq_nil_iff {failure : Option Failure} :
    (resultOutput colored failure services).stdout = [] ↔ failure = none := by
  cases failure with
  | none => simp [resultOutput]
  | some failed => simp [resultOutput]

@[simp]
theorem stderr_resultOutput (failure : Option Failure) :
    (resultOutput colored failure services).stderr = [] := by
  cases failure <;> rfl

@[simp]
theorem exitCode_resultOutput (failure : Option Failure) :
    (resultOutput colored failure services).exitCode = 0 := by
  cases failure <;> rfl

theorem stdout_resultOutput_some (failure : Failure) :
    (resultOutput colored (some failure) services).stdout =
      (if colored then
          "\x1b[31m".toList ++ failure.message ++ "\x1b[0m".toList
        else
          failure.message) ++
        ['\n'] := by
  rw [resultOutput, inRed, services.red_eq]

end Output

/-! ## Any run -/

section Run

variable (tree : FileTree) (arguments : List Bytes) (colored : Bool) (limit : Option Nat)
  (services : Services)

theorem stderr_run : (run tree arguments colored limit services).output.stderr = [] := by
  unfold run
  split
  · rfl
  · exact stderr_resultOutput colored services _

theorem exitCode_run :
    (run tree arguments colored limit services).output.exitCode =
      if arguments.length = 2 then 0 else 1 := by
  cases isPath : path? arguments services with
  | none =>
      have notPair := path?_eq_none_iff.mp isPath
      rw [if_neg notPair, run_of_not_pair notPair, usageOutput]
  | some path =>
      obtain ⟨program, pair⟩ := path?_eq_some_iff.mp isPath
      rw [pair, run_pair, exitCode_resultOutput]
      rfl

theorem tree_run :
    (run tree arguments colored limit services).tree =
      match path? arguments services with
      | none => tree
      | some path => (tree.eraseComments path limit).tree := by
  cases isPath : path? arguments services with
  | none => simp only [run, isPath]
  | some path => simp only [run, isPath]

end Run

/-- Unless there are two arguments, a run prints the usage line and touches nothing.  If there are,
the second is the path of a call of the library, and the run prints what has gone wrong with it. -/
theorem run_agrees
    (tree : FileTree) (arguments : List Bytes) (colored : Bool) (limit : Option Nat)
    (services : Services) :
    (arguments.length ≠ 2 →
        path? arguments services = none ∧
          (run tree arguments colored limit services).tree = tree ∧
          (run tree arguments colored limit services).output.stdout =
            "Usage: ".toList ++
              (arguments.head?.map Utf8.decodeLossy).getD "decomment".toList ++
              " <file_path>".toList ++
              ['\n'] ∧
          (run tree arguments colored limit services).output.exitCode = 1) ∧
      (∀ program path,
        arguments = [program, path] →
        path? arguments services = some path ∧
          (run tree arguments colored limit services).tree =
            (tree.eraseComments path limit).tree ∧
          (run tree arguments colored limit services).output.exitCode = 0 ∧
          ((run tree arguments colored limit services).output.stdout = [] ↔
            (tree.eraseComments path limit).failure = none) ∧
          ∀ failure,
            (tree.eraseComments path limit).failure = some failure →
            (run tree arguments colored limit services).output.stdout =
              (if colored then
                  "\x1b[31m".toList ++ failure.message ++ "\x1b[0m".toList
                else
                  failure.message) ++
                ['\n']) ∧
      (run tree arguments colored limit services).output.stderr = [] ∧
      ∀ otherwise,
        (run tree arguments otherwise limit services).tree =
            (run tree arguments colored limit services).tree ∧
          (run tree arguments otherwise limit services).output.exitCode =
            (run tree arguments colored limit services).output.exitCode := by
  refine ⟨?_, ?_, stderr_run tree arguments colored limit services, ?_⟩
  · intro notPair
    have noPath : path? arguments services = none := path?_eq_none_iff.mpr notPair
    refine ⟨noPath, ?_, ?_, ?_⟩
    · rw [tree_run, noPath]
    · rw [run_of_not_pair notPair]
      exact stdout_usageOutput arguments
    · rw [exitCode_run, if_neg notPair]
  · intro program path pair
    rw [pair, run_pair]
    refine
      ⟨path?_eq_some_iff.mpr ⟨program, rfl⟩, rfl, ?_,
        stdout_resultOutput_eq_nil_iff colored services, ?_⟩
    · exact exitCode_resultOutput colored services _
    · intro failure failed
      rw [failed, stdout_resultOutput_some]
  · intro otherwise
    rw [tree_run, tree_run, exitCode_run, exitCode_run]
    exact ⟨rfl, rfl⟩

end CommentErasure.CommandLine
