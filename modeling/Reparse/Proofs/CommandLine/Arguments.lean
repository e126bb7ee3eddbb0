import Reparse.CommandLine.Arguments

/-!
The files among the arguments. Which files have been named so far is no matter for the arguments
behind them, so files can be left out of the arguments without a change of anything else.
-/

namespace Reparse.CommandLine

namespace Reading

variable (r : Reading)

/-- The reading with other files. -/
def withFiles (files : List String) : Reading :=
  { r with invocation := { r.invocation with files } }

/-- The next argument is the name of a file. -/
def isFile (argument : String) : Bool :=
  r.filesOnly ||
    match argument.toList with
    | '-' :: _ :: _ => false
    | _ => r.awaits.isNone

/-! ## Options do not look at files -/

theorem set?_withFiles (i : Invocation) (files : List String) (o : OptionName) (value : String) :
    { i with files }.set? o value = (i.set? o value).map fun i => { i with files } := by
  cases o with
  | config =>
    simp only [Invocation.set?]
    split <;> rfl
  | python =>
    simp only [Invocation.set?]
    split
    · rfl
    · rw [Option.map_map]
      rfl
  | timeout =>
    simp only [Invocation.set?]
    split
    · rfl
    · rw [Option.map_map]
      rfl

theorem setOption_withFiles (files : List String) (o : OptionName) (value : String) :
    (r.withFiles files).setOption o value = (r.setOption o value).map (·.withFiles files) := by
  have hset := set?_withFiles r.invocation files o value
  unfold setOption
  rw [show (r.withFiles files).invocation = { r.invocation with files } from rfl, hset]
  cases r.invocation.set? o value <;> rfl

theorem long_withFiles (files : List String) (name : String) (value : Option String) :
    (r.withFiles files).long name value = (r.long name value).map (·.withFiles files) := by
  unfold long
  split
  · exact r.setOption_withFiles files _ _
  · rfl
  · split
    · rfl
    · split <;> rfl
  · rfl

theorem dashed_withFiles (files : List String) (rest : List Char) :
    (r.withFiles files).dashed rest = (r.dashed rest).map (·.withFiles files) := by
  unfold dashed
  rw [show (r.withFiles files).awaits = r.awaits from rfl]
  split
  · rfl
  · split
    · rfl
    · split <;> exact r.long_withFiles files _ _
    · rfl
    · rfl
    · rfl

theorem step_of_isFile {argument : String} (h : r.isFile argument = true) :
    r.step argument = r.file argument := by
  unfold isFile at h
  unfold step
  cases hfilesOnly : r.filesOnly with
  | true => rfl
  | false =>
    rw [hfilesOnly, Bool.false_or] at h
    simp only [Bool.false_eq_true, if_false]
    split
    · rename_i c cs heq
      rw [heq] at h
      cases h
    · rename_i hdash
      split at h
      · rename_i c cs heq
        exact absurd heq (hdash c cs)
      · rw [Option.isNone_iff_eq_none.1 h]

theorem step_withFiles {argument : String} (h : r.isFile argument = false) (files : List String) :
    (r.withFiles files).step argument = (r.step argument).map (·.withFiles files) := by
  unfold isFile at h
  rw [Bool.or_eq_false_iff] at h
  obtain ⟨hfilesOnly, h⟩ := h
  unfold step
  rw [show (r.withFiles files).filesOnly = r.filesOnly from rfl, hfilesOnly]
  simp only [Bool.false_eq_true, if_false]
  split
  · exact r.dashed_withFiles files _
  · rename_i hdash
    split at h
    · rename_i c cs heq
      exact absurd heq (hdash c cs)
    · rw [show (r.withFiles files).awaits = r.awaits from rfl]
      split
      · exact r.setOption_withFiles files _ _
      · rename_i hnone
        rw [hnone] at h
        cases h

/-! ## Leaving files out -/

variable {r} {r' : Reading}

theorem file_eq_ok {path : String} (h : r.file path = .ok r') :
    r' = r.withFiles (path :: r.invocation.files) ∧
      ∀ files, (r.withFiles files).file path = .ok (r.withFiles (path :: files)) := by
  unfold file at h ⊢
  split at h
  · cases h
  · rename_i hne
    refine ⟨(Except.ok.inj h).symm, fun files => ?_⟩
    rw [if_neg hne]
    rfl

/-- An argument names a file, or it says the same whatever files have been named. -/
theorem step_cases {argument : String} (h : r.step argument = .ok r') :
    (r' = r.withFiles (argument :: r.invocation.files) ∧
      ∀ files, (r.withFiles files).step argument = .ok (r.withFiles (argument :: files))) ∨
    r'.invocation.files = r.invocation.files ∧
      ∀ files, (r.withFiles files).step argument = .ok (r'.withFiles files) := by
  cases hfile : r.isFile argument with
  | true =>
    rw [r.step_of_isFile hfile] at h
    obtain ⟨rfl, hagain⟩ := file_eq_ok h
    refine .inl ⟨rfl, fun files => ?_⟩
    rw [step_of_isFile (r.withFiles files) hfile]
    exact hagain files
  | false =>
    have hkept : ∀ files, (r.withFiles files).step argument = .ok (r'.withFiles files) := by
      intro files
      rw [r.step_withFiles hfile, h]
      rfl
    have heq : r' = r'.withFiles r.invocation.files :=
      Except.ok.inj (h.symm.trans (hkept r.invocation.files))
    have hsame := congrArg (fun q : Reading => q.invocation.files) heq
    exact .inr ⟨hsame, hkept⟩

theorem foldlM_step_cons {argument : String} (h : r.step argument = .ok r') (rest : List String) :
    (argument :: rest).foldlM step r = rest.foldlM step r' := by
  rw [List.foldlM_cons, h]
  rfl

/-- The files of arguments are among them, and all of them but one, or all, can be left out. -/
theorem exists_sublist_of_foldlM {arguments : List String}
    (h : arguments.foldlM step r = .ok r') :
    ∃ named, r'.invocation.files = named ++ r.invocation.files ∧
      (∀ files, ∃ alone : List String, alone.Sublist arguments ∧
        alone.foldlM step (r.withFiles files) = .ok (r'.withFiles files)) ∧
      ∀ path ∈ named, ∀ files, ∃ alone : List String, alone.Sublist arguments ∧
        alone.foldlM step (r.withFiles files) = .ok (r'.withFiles (path :: files)) := by
  induction arguments generalizing r with
  | nil =>
    obtain rfl := Except.ok.inj h
    exact ⟨[], rfl, fun files => ⟨[], .slnil, rfl⟩, nofun⟩
  | cons argument rest ih =>
    cases hstep : r.step argument with
    | error request =>
      rw [List.foldlM_cons, hstep] at h
      cases h
    | ok next =>
      rw [foldlM_step_cons hstep] at h
      obtain ⟨named, hfiles, hnone, hone⟩ := ih h
      rcases step_cases hstep with ⟨rfl, hagain⟩ | ⟨hsame, hkept⟩
      · -- The argument is left out, unless it is the one that stays.
        refine ⟨named ++ [argument], ?_, ?_, ?_⟩
        · rw [hfiles, List.append_assoc]
          rfl
        · intro files
          obtain ⟨alone, hsublist, hfold⟩ := hnone files
          exact ⟨alone, hsublist.cons _, hfold⟩
        · intro path hpath files
          rcases List.mem_append.1 hpath with hearlier | hlast
          · obtain ⟨alone, hsublist, hfold⟩ := hone path hearlier files
            exact ⟨alone, hsublist.cons _, hfold⟩
          · obtain rfl := List.mem_singleton.1 hlast
            obtain ⟨alone, hsublist, hfold⟩ := hnone (path :: files)
            exact ⟨_, hsublist.cons_cons _, (foldlM_step_cons (hagain files) _).trans hfold⟩
      · refine ⟨named, hfiles.trans (congrArg _ hsame), ?_, ?_⟩
        · intro files
          obtain ⟨alone, hsublist, hfold⟩ := hnone files
          exact ⟨_, hsublist.cons_cons _, (foldlM_step_cons (hkept files) _).trans hfold⟩
        · intro path hpath files
          obtain ⟨alone, hsublist, hfold⟩ := hone path hpath files
          exact ⟨_, hsublist.cons_cons _, (foldlM_step_cons (hkept files) _).trans hfold⟩

/-! ## Only the end of the arguments makes a run -/

theorem setOption_ne_run (r : Reading) (o : OptionName) (value : String) (i : Invocation) :
    r.setOption o value ≠ .error (.run i) := by
  unfold setOption
  split <;> simp

theorem file_ne_run (r : Reading) (path : String) (i : Invocation) :
    r.file path ≠ .error (.run i) := by
  unfold file
  split <;> simp

theorem long_ne_run (r : Reading) (name : String) (value : Option String) (i : Invocation) :
    r.long name value ≠ .error (.run i) := by
  unfold long
  split
  · exact r.setOption_ne_run _ _ i
  · simp
  · split
    · simp
    · split <;> simp
  · simp

theorem dashed_ne_run (r : Reading) (rest : List Char) (i : Invocation) :
    r.dashed rest ≠ .error (.run i) := by
  unfold dashed
  split
  · simp
  · split
    · simp
    · split <;> exact r.long_ne_run _ _ i
    · simp
    · simp
    · simp

theorem step_ne_run (r : Reading) (argument : String) (i : Invocation) :
    r.step argument ≠ .error (.run i) := by
  unfold step
  split
  · exact r.file_ne_run argument i
  · split
    · exact r.dashed_ne_run _ i
    · split
      · exact r.setOption_ne_run _ argument i
      · exact r.file_ne_run argument i

theorem foldlM_step_ne_run (r : Reading) (arguments : List String) (i : Invocation) :
    arguments.foldlM step r ≠ .error (.run i) := by
  induction arguments generalizing r with
  | nil => nofun
  | cons argument rest ih =>
    rw [List.foldlM_cons]
    cases hstep : r.step argument with
    | error request =>
      rintro ⟨⟩
      exact r.step_ne_run argument i hstep
    | ok next => exact ih next

end Reading

/-- Of the arguments of a run, those that name files can be left out but for one of them. -/
theorem Request.exists_alone {arguments : List String} {i : Invocation}
    (h : ofArguments arguments = .run i) {path : String} (hpath : path ∈ i.files) :
    ∃ alone : List String, alone.Sublist arguments ∧
      ofArguments alone = .run { i with files := [path] } := by
  unfold ofArguments at h
  cases hfold : arguments.foldlM Reading.step .initial with
  | error request =>
    rw [hfold] at h
    exact absurd (hfold.trans (congrArg Except.error h)) (Reading.foldlM_step_ne_run _ _ i)
  | ok r =>
    rw [hfold] at h
    dsimp only [Reading.finish] at h
    split at h
    · cases h
    · rename_i hcomplete
      cases h
      obtain ⟨named, hfiles, -, hone⟩ := Reading.exists_sublist_of_foldlM hfold
      obtain rfl : r.invocation.files = named := hfiles.trans (List.append_nil named)
      obtain ⟨alone, hsublist, hfold'⟩ := hone path (List.mem_reverse.1 hpath) []
      refine ⟨alone, hsublist, ?_⟩
      have hawaits : (r.awaits.isSome || false) = false := by
        simp only [Bool.or_eq_true, not_or, Bool.not_eq_true] at hcomplete
        rw [hcomplete.1, Bool.or_false]
      have hfold'' : alone.foldlM Reading.step .initial = .ok (r.withFiles [path]) := hfold'
      unfold ofArguments
      rw [hfold'']
      show (if (r.awaits.isSome || false) = true then _ else _) = _
      rw [hawaits]
      rfl

end Reparse.CommandLine
