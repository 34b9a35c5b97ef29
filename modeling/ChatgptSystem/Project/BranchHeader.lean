import ChatgptSystem.Project.ProjectPublishGate

/-!
# Reading the branch from the status

The header of `git status` names the branch, possibly with a label before it and an upstream
branch after it. `cleanBranch` reads the right branch from every header Git prints.

* `summaryBranch_born` — the branch in front of the upstream is the branch, for every legal name;
* `branch_of_cleanBranch` — a branch that is read is the current branch, and the working tree is
  clean up to the ownership metadata;
* `cleanBranch_of_clean` — on a clean working tree, every current branch whose name the services
  accept is read.
-/

namespace GitService

/-! ## Branch names -/

theorem prefix_components {w : List Char} (hw : '/' ∉ w) :
    ∀ {branch : List Char}, w <+: branch →
      ∃ first more, components branch = first :: more ∧ w <+: first := by
  intro branch hstart
  induction branch generalizing w with
  | nil => exact ⟨[], [], rfl, hstart⟩
  | cons c rest ih =>
    cases w with
    | nil =>
      rw [components]
      split
      · exact ⟨[], _, rfl, List.prefix_rfl⟩
      split
      · exact ⟨[c], [], rfl, List.nil_prefix⟩
      next first more _ => exact ⟨c :: first, more, rfl, List.nil_prefix⟩
    | cons d w =>
      obtain ⟨rfl, hrest⟩ := List.cons_prefix_cons.mp hstart
      obtain ⟨hne, hw⟩ := not_or.mp (mt List.mem_cons.mpr hw)
      obtain ⟨first, more, hcomponents, hfirst⟩ := ih hw hrest
      refine ⟨d :: first, more, ?_, List.cons_prefix_cons.mpr ⟨rfl, hfirst⟩⟩
      rw [components, if_neg (Ne.symm hne), hcomponents]

theorem infix_components {w branch : List Char} (hw : '/' ∉ w) (h : w <:+: branch) :
    ∃ component ∈ components branch, w <:+: component := by
  induction branch with
  | nil => exact ⟨[], List.mem_singleton_self _, h⟩
  | cons c rest ih =>
    rcases List.infix_cons_iff.mp h with hstart | hinfix
    · obtain ⟨first, more, hcomponents, hfirst⟩ := prefix_components hw hstart
      exact ⟨first, by simp [hcomponents], hfirst.isInfix⟩
    · obtain ⟨component, hmem, hcomponent⟩ := ih hinfix
      rw [components]
      split
      · exact ⟨component, List.mem_cons_of_mem _ hmem, hcomponent⟩
      split
      next hnil => simp [hnil] at hmem
      next first more hcons =>
        rw [hcons] at hmem
        rcases List.mem_cons.mp hmem with rfl | hmore
        · exact ⟨c :: component, List.mem_cons_self, hcomponent.trans (List.suffix_cons c _).isInfix⟩
        · exact ⟨component, List.mem_cons_of_mem _ hmore, hcomponent⟩

theorem validateBranchName_ok {branch accepted : List Char}
    (h : validateBranchName branch = .ok accepted) :
    accepted = branch ∧ ¬ "..".toList <:+: branch := by
  unfold validateBranchName at h
  split at h
  · cases h
  split at h
  · cases h
  next hcomponents =>
    refine ⟨(Except.ok.inj h).symm, fun hdots => hcomponents ?_⟩
    obtain ⟨component, hmem, hinfix⟩ := infix_components (by decide) hdots
    refine List.any_eq_true.mpr ⟨component, hmem, ?_⟩
    have hincludes : Text.includes component "..".toList = true :=
      (Text.splitFirst_isSome_iff _ _).mpr hinfix
    rw [hincludes, Bool.or_true, Bool.true_or, Bool.true_or]

end GitService

namespace ProjectPublishGate

variable {W : Type} {git : Git W} {w : W}

/-- The working tree is clean up to the ownership metadata. -/
def Clean (git : Git W) (w : W) : Prop :=
  ∀ entry ∈ git.entries w, entry = allowedUntrackedOwnershipMetadata

/-! ## The branch part of the header -/

theorem not_label_prefix {name tracking label rest : List Char} (hname : ' ' ∉ name)
    (hlabel : '.' ∉ label) (htracking : tracking = [] ∨ ∃ more, tracking = '.' :: more) :
    ¬ label ++ ' ' :: rest <+: name ++ tracking := by
  induction label generalizing name with
  | nil =>
    intro h
    cases name with
    | nil =>
      rcases htracking with rfl | ⟨more, rfl⟩
      · simp at h
      · simp at h
    | cons c name =>
      obtain ⟨rfl, -⟩ := List.cons_prefix_cons.mp h
      exact hname List.mem_cons_self
  | cons c label ih =>
    obtain ⟨hc, hlabel⟩ := not_or.mp (mt List.mem_cons.mpr hlabel)
    intro h
    cases name with
    | nil =>
      rcases htracking with rfl | ⟨more, rfl⟩
      · simp at h
      · exact hc (List.cons_prefix_cons.mp h).1.symm
    | cons d name =>
      exact ih (fun hmem => hname (List.mem_cons_of_mem _ hmem)) hlabel
        (List.cons_prefix_cons.mp h).2

theorem IsTracking.nil_or_dot {tracking : List Char} (h : IsTracking tracking) :
    tracking = [] ∨ ∃ more, tracking = '.' :: more := by
  rcases h with rfl | ⟨upstream, rfl, -⟩
  · exact .inl rfl
  · exact .inr ⟨_, rfl⟩

theorem splitFirst_tracking {name upstream : List Char} (hname : LegalBranch name) :
    Text.splitFirst "...".toList (name ++ "...".toList ++ upstream) = some (name, upstream) := by
  refine Text.splitFirst_append (by decide) fun early late hsplit hlate hstart => ?_
  obtain ⟨c, late, rfl⟩ := List.exists_cons_of_ne_nil hlate
  obtain ⟨hc, hrest⟩ := List.cons_prefix_cons.mp
    (show ['.', '.', '.'] <+: c :: (late ++ "...".toList ++ upstream) from hstart)
  subst hc
  cases late with
  | nil => exact hname.no_last_dot early hsplit
  | cons d late =>
    obtain ⟨hd, -⟩ := List.cons_prefix_cons.mp
      (show ['.', '.'] <+: d :: (late ++ "...".toList ++ upstream) from hrest)
    subst hd
    exact hname.no_dots ⟨early, late, by rw [hsplit]; simp⟩

theorem summaryBranch_born {name tracking : List Char} (hname : LegalBranch name)
    (htracking : IsTracking tracking) : summaryBranch (name ++ tracking) = name := by
  have hlabel : ∀ label rest : List Char, '.' ∉ label →
      (label ++ ' ' :: rest).isPrefixOf (name ++ tracking) = false := by
    intro label rest hdot
    rw [Bool.eq_false_iff, ne_eq, List.isPrefixOf_iff_prefix]
    exact not_label_prefix hname.no_space hdot (IsTracking.nil_or_dot htracking)
  have hcommits : "No commits yet on ".toList.isPrefixOf (name ++ tracking) = false :=
    hlabel "No".toList "commits yet on ".toList (by decide)
  have hinitial : "Initial commit on ".toList.isPrefixOf (name ++ tracking) = false :=
    hlabel "Initial".toList "commit on ".toList (by decide)
  rw [summaryBranch, hcommits, if_neg Bool.false_ne_true, hinitial, if_neg Bool.false_ne_true]
  rcases htracking with rfl | ⟨upstream, rfl, -⟩
  · have hnone : Text.splitFirst "...".toList name = none := by
      rw [← Option.not_isSome_iff_eq_none, Text.splitFirst_isSome_iff]
      exact fun h => hname.no_dots ((by decide : "..".toList <:+: "...".toList).trans h)
    rw [List.append_nil, hnone]
    rfl
  · rw [← List.append_assoc, splitFirst_tracking hname]
    rfl

theorem summaryBranch_unborn {label : String} {rest : List Char}
    (hlabel : label = "No commits yet on " ∨ label = "Initial commit on ") :
    summaryBranch (label.toList ++ rest) = rest := by
  have hstart : label.toList.isPrefixOf (label.toList ++ rest) = true :=
    List.isPrefixOf_iff_prefix.mpr (List.prefix_append _ _)
  rcases hlabel with rfl | rfl
  · rw [summaryBranch, hstart, if_pos rfl, List.drop_left]
  · have hfirst : "No commits yet on ".toList.isPrefixOf
        ("Initial commit on ".toList ++ rest) = false := rfl
    rw [summaryBranch, hfirst, if_neg Bool.false_ne_true, hstart, if_pos rfl, List.drop_left]

/-! ## The branch of a status -/

theorem lines_of_status (hgit : git.Documented) {header : List Char} (hheader : git.Header w header) :
    (Text.splitLines ((("## ".toList ++ header) :: git.entries w).flatMap (· ++ ['\n']))).filter
      (!·.isEmpty) = ("## ".toList ++ header) :: git.entries w := by
  have hline : '\r' ∉ header ∧ '\n' ∉ header := by
    have htracked : ∀ {name tracking}, git.branch w = some name → IsTracking tracking →
        '\r' ∉ name ++ tracking ∧ '\n' ∉ name ++ tracking := by
      intro name tracking hname htracking
      obtain ⟨hr, hn⟩ := (hgit.legal hname).no_line
      rcases htracking with rfl | ⟨upstream, rfl, hr', hn'⟩
      · simp [hr, hn]
      · simp [hr, hn, hr', hn']
    cases hheader with
    | detached _ => decide
    | born hbranch _ htracking => exact htracked hbranch htracking
    | unborn hbranch _ hlabel htracking =>
      obtain ⟨hr, hn⟩ := htracked hbranch htracking
      rcases hlabel with rfl | rfl <;> simp_all
  rw [Text.splitLines_lines, List.filter_append, List.filter_eq_self.mpr]
  · exact List.append_nil _
  · intro line hmem
    rcases List.mem_cons.mp hmem with rfl | hentry
    · rfl
    · simp [(hgit.entry_line hentry).1]
  · intro line hmem
    rcases List.mem_cons.mp hmem with rfl | hentry
    · simp [hline]
    · exact (hgit.entry_line hentry).2

variable {result : GitResult}

theorem cleanBranch_eq (hgit : git.Documented) (hexit : result.exitCode = 0) {header : List Char}
    (hheader : git.Header w header)
    (hstdout : result.stdout = (("## ".toList ++ header) :: git.entries w).flatMap (· ++ ['\n'])) :
    cleanBranch result =
      if ((git.entries w).filter (· ≠ allowedUntrackedOwnershipMetadata)).isEmpty then
        if (summaryBranch header).isEmpty || "HEAD ".toList.isPrefixOf (summaryBranch header) ||
            summaryBranch header = "HEAD".toList then
          .error (.policy "Git push requires a named current branch.")
        else GitService.validateBranchName (Text.trim (summaryBranch header))
      else .error (.worktreeNotClean "The project worktree must be clean before publication.") := by
  have hstart : "## ".toList.isPrefixOf ("## ".toList ++ header) = true := rfl
  have hdrop : ("## ".toList ++ header).drop 3 = header := rfl
  rw [cleanBranch, if_neg (not_not.mpr hexit), hstdout, lines_of_status hgit hheader]
  simp only [List.headD_cons, List.tail_cons, hstart, hdrop, Bool.not_true, Bool.false_eq_true,
    if_false]
  cases ((git.entries w).filter (· ≠ allowedUntrackedOwnershipMetadata)).isEmpty <;> rfl

theorem clean_iff : Clean git w ↔
    ((git.entries w).filter (· ≠ allowedUntrackedOwnershipMetadata)).isEmpty = true := by
  rw [List.isEmpty_iff, List.filter_eq_nil_iff]
  simp [Clean]

/-- The branch that is read from the status is the current branch, up to white space around its
name, and the working tree is clean. -/
theorem branch_of_cleanBranch (hgit : git.Documented) {branch : List Char}
    (hrun : git.run .status w = .ok result) (h : cleanBranch result = .ok branch) :
    Clean git w ∧ ∃ name, git.branch w = some name ∧ branch = Text.trim name := by
  have hexit : result.exitCode = 0 := by
    by_contra hne
    simp [cleanBranch, hne] at h
  obtain ⟨header, hheader, hstdout⟩ := hgit.status hrun hexit
  rw [cleanBranch_eq hgit hexit hheader hstdout] at h
  split at h
  case isFalse => cases h
  next hclean =>
  refine ⟨clean_iff.mpr hclean, ?_⟩
  split at h
  case isTrue => cases h
  next hnamed =>
  obtain ⟨hbranch, hdots⟩ := GitService.validateBranchName_ok h
  cases hheader with
  | detached _ => exact absurd rfl hnamed
  | born hname _ htracking =>
    rw [summaryBranch_born (hgit.legal hname) htracking] at hbranch
    exact ⟨_, hname, hbranch⟩
  | @unborn label name tracking hname _ hlabel htracking =>
    rw [summaryBranch_unborn hlabel] at hbranch hdots
    rcases htracking with rfl | ⟨upstream, rfl, -⟩
    · exact ⟨name, hname, by rw [hbranch, List.append_nil]⟩
    · -- an upstream after a branch without commits is not cut off, but its dots are refused
      have hinfix : "..".toList <:+: name ++ ("...".toList ++ upstream) :=
        ⟨name, ".".toList ++ upstream, by simp⟩
      exact absurd (Text.infix_trim (by decide) (by decide) hinfix) hdots

/-- On a clean working tree every current branch is read, whatever its upstream, if the services
accept its name. -/
theorem cleanBranch_of_clean (hgit : git.Documented) {name : List Char}
    (hrun : git.run .status w = .ok result) (hexit : result.exitCode = 0) (hclean : Clean git w)
    (hname : git.branch w = some name) (hhead : git.head w ≠ none) (htrim : Text.trim name = name) :
    cleanBranch result = if name = "HEAD".toList then
      .error (.policy "Git push requires a named current branch.")
      else GitService.validateBranchName name := by
  obtain ⟨header, hheader, hstdout⟩ := hgit.status hrun hexit
  rw [cleanBranch_eq hgit hexit hheader hstdout, if_pos (clean_iff.mp hclean)]
  cases hheader with
  | detached hnone => cases hnone.symm.trans hname
  | unborn _ hnone _ _ => exact absurd hnone hhead
  | @born name' tracking hname' _ htracking =>
    obtain rfl : name' = name := Option.some.inj (hname'.symm.trans hname)
    have hlegal := hgit.legal hname
    have hspace : "HEAD ".toList.isPrefixOf name' = false := by
      rw [Bool.eq_false_iff, ne_eq, List.isPrefixOf_iff_prefix]
      exact fun hstart => hlegal.no_space (hstart.subset (by decide))
    have hempty : name'.isEmpty = false := by simpa using hlegal.ne_nil
    rw [summaryBranch_born hlegal htracking, htrim, hspace, hempty]
    simp

end ProjectPublishGate
