import ChatgptSystem.Project.BranchHeader

/-!
# What a push has been verified for

The gate looks at the repository in separate steps, and between two of them the repository may
change in any way. A ghost log keeps what it looked at, with the state of the world at that
moment.

* `Look`, `GateStep` — the log and the steps of the gate, each in an arbitrary state;
* `Verified` — what the looks before a push have shown;
* `verified_of_push` — every push that is issued has been verified.
-/

open Interleaving ProjectCheckService

namespace ProjectPublishGate

variable {W : Type}

inductive Look (W : Type) where
  | git (command : GitCommand) (w : W)
  | observedHead (w : W)
  | observedWorkingTree (w : W)
  | detectedChecks (answer : Except AppError (List DetectedProjectCheck))
  | store (answer : Except Errno StoreFile)
  deriving DecidableEq

/-- An operation of the gate in a state of the world that is arbitrary. The head and the working
tree of one observation are looked at one after the other. -/
inductive GateStep (git : Git W) :
    (o : GateOp) → List (Look W) → o.Res → List (Look W) → Prop where
  | git {log} (command : GitCommand) (w : W) :
    GateStep git (.git command) log (git.run command w) (log ++ [.git command w])
  | observe {log cwd} (headAt treeAt : W)
    (answer : Except AppError RepositoryStateObservation)
    (hobserved : ∀ observation, answer = .ok observation →
      git.head headAt = some observation.head ∧
        git.workingTreeDigest treeAt = observation.workingTreeDigest) :
    GateStep git (.check (.observeRepositoryState cwd)) log answer
      (log ++ [.observedHead headAt, .observedWorkingTree treeAt])
  | detect {log root} (answer : Except AppError (List DetectedProjectCheck)) :
    GateStep git (.check (.detectChecks root)) log answer (log ++ [.detectedChecks answer])
  | readStore {log fingerprint} (answer : Except Errno StoreFile) :
    GateStep git (.check (.readStore fingerprint)) log answer (log ++ [.store answer])

/-- The evidence of a check that the gate accepts for a commit and a working tree. -/
def Accepted (record : StoredProjectVerification) (head workingTreeDigest : String)
    (item : DetectedProjectCheck) : Prop :=
  ∃ evidence, evidenceOf item.checkId record.evidence = some evidence ∧
    evidence.baseStatus = .PASS ∧ evidence.head = head ∧
    evidence.workingTreeDigest = workingTreeDigest ∧ evidence.stateChangedDuringRun = false

/-- The looks of the gate before a push of a commit to a branch: the branch is a named branch
other than `main` and was the current one whenever the gate looked; both status observations were
clean; the report saw the commit as the head, and for each of the detected checks, of which there
are some, passing evidence for that commit and for the working tree the report saw; and the
commit was still the head after that. -/
def Verified (git : Git W) (log : List (Look W)) (source branch : List Char) : Prop :=
  ∃ (first headAt treeAt second current lookup origin : W) (detected : List DetectedProjectCheck)
    (file : StoreFile) (record : StoredProjectVerification) (head : String),
    log = [.git .status first, .observedHead headAt, .observedWorkingTree treeAt,
      .detectedChecks (.ok detected), .store (.ok file), .git .status second,
      .git .branchShowCurrent current, .git .revParseHead lookup, .git .remoteGetUrl origin] ∧
    source = head.toList ∧ GitService.isObjectId head ∧
    branch ≠ "main".toList ∧ (∀ w ∈ [first, second, current], git.branch w = some branch) ∧
    (∀ w ∈ [first, second], Clean git w) ∧
    (∀ w ∈ [headAt, lookup], git.head w = some head) ∧
    file.parsed = .store record ∧ detected ≠ [] ∧
    ∀ item ∈ detected, Accepted record head (git.workingTreeDigest treeAt) item

/-- Every push in the log was verified by the looks before it. -/
def Justified (git : Git W) (log : List (Look W)) : Prop :=
  ∀ earlier source branch w later, log = earlier ++ .git (.push source branch) w :: later →
    Verified git earlier source branch

/-! ## Rules -/

section Rules

variable {git : Git W} {log : List (Look W)} {α : Type}

theorem justified_nil : Justified git [] := by
  intro earlier source branch w later h
  simp at h

theorem Justified.concat (h : Justified git log) {look : Look W}
    (hpush : ∀ source branch w, look = .git (.push source branch) w →
      Verified git log source branch) : Justified git (log ++ [look]) := by
  intro earlier source branch w later hlog
  rcases List.eq_nil_or_concat later with rfl | ⟨later, last, rfl⟩
  · obtain ⟨rfl, hlook⟩ := List.append_inj' hlog rfl
    exact hpush source branch w (List.singleton_inj.mp hlook)
  · have hsplit : log ++ [look] = (earlier ++ .git (.push source branch) w :: later) ++ [last] := by
      simpa using hlog
    exact h earlier source branch w later (List.append_inj' hsplit rfl).1

/-- The gate runs alone on its log; the world is arbitrary in every step. -/
abbrev Wp {Op : Type} {Res : Op → Type} (git : Git W) (exec : Exec Op Res (List (Look W)))
    (Q : α → List (Look W) → Prop) (p : Program Op Res AppError α) (log : List (Look W)) :
    Prop :=
  p.wp exec (.alone (Justified git)) () Q (fun _ _ => True) log

variable {Op : Type} {Res : Op → Type} {exec : Exec Op Res (List (Look W))}
  {Q : α → List (Look W) → Prop}

theorem wp_pure {a : α} (h : Q a log) : Wp git exec Q (.pure a) log := by
  rintro _ rfl -
  exact h

theorem wp_throw {e : AppError} : Wp git exec Q (.throw e) log := fun _ _ _ => trivial

theorem wp_ofExcept {β : Type} {r : Except AppError β} {g : β → Program Op Res AppError α}
    (h : ∀ b, r = .ok b → Wp git exec Q (g b) log) :
    Wp git exec Q ((Program.ofExcept r).bind g) log := by
  cases r with
  | ok b => exact h b rfl
  | error e => exact wp_throw

abbrev gitStep (git : Git W) :
    Exec GitCommand (fun _ => Except AppError GitResult) (List (Look W)) :=
  fun command => GateStep git (.git command)

abbrev checkStep (git : Git W) : Exec CheckOp CheckOp.Res (List (Look W)) :=
  fun o => GateStep git (.check o)

theorem wp_run {Q : GitResult → List (Look W) → Prop} {command : GitCommand}
    (hs : Justified git log)
    (hpush : ∀ source branch, command = .push source branch → Verified git log source branch)
    (hQ : ∀ w result, git.run command w = .ok result → Justified git (log ++ [.git command w]) →
      Q result (log ++ [.git command w])) :
    Wp git (gitStep git) Q (GitService.run command) log := by
  rintro _ rfl - r log' hstep
  cases hstep with
  | git _ w =>
    have hs' : Justified git (log ++ [.git command w]) := hs.concat fun source branch w' hlook => by
      cases hlook
      exact hpush source branch rfl
    refine ⟨hs', trivial, ?_⟩
    cases hrun : git.run command w with
    | ok result => exact wp_pure (hQ w result hrun hs')
    | error e => exact wp_throw

end Rules

/-! ## The report -/

section Report

variable {git : Git W} {log : List (Look W)}

def Reported (git : Git W) (log : List (Look W)) (view : ProjectCheckView)
    (log' : List (Look W)) : Prop :=
  ∃ (headAt treeAt : W) (detected : List DetectedProjectCheck) (answer : Except Errno StoreFile)
    (observation : RepositoryStateObservation) (store : StoredProjectVerification),
    log' = log ++ [.observedHead headAt, .observedWorkingTree treeAt,
      .detectedChecks (.ok detected), .store answer] ∧
    git.head headAt = some observation.head ∧
    git.workingTreeDigest treeAt = observation.workingTreeDigest ∧
    (store.evidence = [] ∨ ∃ file, answer = .ok file ∧ file.parsed = .store store) ∧
    view = render .report observation detected (some store)

theorem wp_report (hs : Justified git log) (cwd : String) :
    Wp git (checkStep git) (fun view log' => Justified git log' ∧ Reported git log view log')
      (report cwd) log := by
  have hkeep : ∀ {log : List (Look W)} (look), (∀ command w, look ≠ Look.git command w) →
      Justified git log → Justified git (log ++ [look]) :=
    fun _ hlook h => h.concat fun _ _ w hgit => absurd hgit (hlook _ w)
  unfold report
  rintro _ rfl - r log₁ hstep
  cases hstep with
  | observe headAt treeAt answer hobserved =>
  have h₁ : Justified git (log ++ [.observedHead headAt, .observedWorkingTree treeAt]) := by
    have h := hkeep (.observedWorkingTree treeAt) nofun (hkeep (.observedHead headAt) nofun hs)
    rwa [List.append_assoc] at h
  refine ⟨h₁, trivial, wp_ofExcept fun observation hobservation => ?_⟩
  obtain ⟨hhead, htree⟩ := hobserved observation hobservation
  rintro _ rfl - checks log₂ hstep
  cases hstep with
  | detect =>
  have h₂ := hkeep (.detectedChecks checks) nofun h₁
  refine ⟨h₂, trivial, wp_ofExcept fun detected hdetected => ?_⟩
  subst hdetected
  rintro _ rfl - stored log₃ hstep
  cases hstep with
  | readStore =>
  have h₃ := hkeep (.store stored) nofun h₂
  refine ⟨h₃, trivial, ?_⟩
  -- the view of a store that has been loaded, or of an empty one
  have hview : ∀ store : StoredProjectVerification,
      (store.evidence = [] ∨ ∃ file, stored = .ok file ∧ file.parsed = .store store) →
      Wp git (checkStep git) (fun view log' => Justified git log' ∧ Reported git log view log')
        (.pure (render .report observation detected (some store)))
        (log ++ [.observedHead headAt, .observedWorkingTree treeAt] ++
          [.detectedChecks (.ok detected)] ++ [.store stored]) := by
    intro store hstore
    refine wp_pure ⟨h₃, headAt, treeAt, detected, stored, observation, store, ?_, hhead, htree,
      hstore, rfl⟩
    simp
  cases stored with
  | error code =>
    cases code with
    | ENOENT => exact hview (emptyStore observation) (.inl rfl)
    | _ => exact wp_throw
  | ok file =>
    show Wp git (checkStep git) _ ((Program.ofExcept (parseStore observation file)).bind _) _
    refine wp_ofExcept fun store hparse => ?_
    exact hview store (.inr ⟨file, rfl, parseStore_ok hparse⟩)

theorem accepted_of_pass {observation : RepositoryStateObservation}
    {detected : List DetectedProjectCheck} {store : StoredProjectVerification}
    (h : (render .report observation detected (some store)).overallStatus = .PASS) :
    detected ≠ [] ∧ ∀ item ∈ detected,
      Accepted store observation.head observation.workingTreeDigest item := by
  obtain ⟨hne, hall⟩ := (overallStatus_eq_pass _).mp h
  refine ⟨fun hnil => hne (by rw [hnil, List.map_nil]), fun item hitem => ?_⟩
  obtain ⟨record, evidence, hrecord, hevidence, hpass⟩ :=
    (renderItem_pass observation (some store) item).mp (hall _ (List.mem_map_of_mem hitem))
  cases hrecord
  exact ⟨evidence, hevidence, hpass⟩

end Report

/-! ## The push -/

section Push

variable {git : Git W} {log : List (Look W)}

theorem trim_line {text : List Char} : Text.trim (text ++ ['\n']) = Text.trim text :=
  Text.trim_append (by decide)

theorem branch_of_show (hgit : git.Documented) (hnames : git.PlainNames) {w : W}
    {result : GitResult} {branch : List Char} (hrun : git.run .branchShowCurrent w = .ok result)
    (hexit : result.exitCode = 0) (hne : (Text.trim result.stdout).isEmpty = false)
    (hvalid : GitService.validateBranchName (Text.trim result.stdout) = .ok branch) :
    git.branch w = some branch := by
  have hstdout := hgit.branchShowCurrent hrun hexit
  cases hname : git.branch w with
  | none =>
    rw [hname] at hstdout
    rw [hstdout] at hne
    cases hne
  | some name =>
    rw [hname] at hstdout
    have htrim : Text.trim result.stdout = name := by
      rw [hstdout, Option.map_some, Option.getD_some, trim_line, hnames hname]
    rw [(GitService.validateBranchName_ok hvalid).1, htrim]

theorem head_of_revParse (hgit : git.Documented) {w : W} {result : GitResult} {head : String}
    (hrun : git.run .revParseHead w = .ok result) (hexit : result.exitCode = 0)
    (hhead : Text.trim result.stdout = head.toList) : git.head w = some head := by
  obtain ⟨id, hid, hstdout⟩ := hgit.revParseHead hrun hexit
  rw [hstdout, trim_line, Text.trim_of_matchesHex (hgit.objectId hid)] at hhead
  rw [hid, String.toList_inj.mp hhead]

theorem wp_pushSource (hgit : git.Documented) (hs : Justified git log)
    {branch expected : List Char} {head : String} :
    Wp git (gitStep git) (fun source log' => Justified git log' ∧ branch = expected ∧
        GitService.isObjectId head ∧ source = head.toList ∧
        ∃ lookup, log' = log ++ [.git .revParseHead lookup] ∧ git.head lookup = some head)
      (GitService.pushSource branch (some ⟨expected, head⟩)) log := by
  refine wp_ofExcept fun expected' hvalid => ?_
  obtain ⟨rfl, -⟩ := GitService.validateBranchName_ok hvalid
  split
  · exact wp_throw
  next hfresh =>
  obtain ⟨hid, hbranch⟩ : GitService.isObjectId head = true ∧ branch = expected' := by
    simpa using hfresh
  refine Program.wp_bind hs (wp_run hs nofun fun lookup result hrun hs => ?_)
  split
  · exact wp_throw
  next hhead =>
  obtain ⟨hexit, hhead⟩ : result.exitCode = 0 ∧ Text.trim result.stdout = head.toList := by
    simpa using hhead
  exact wp_pure ⟨hs, hbranch, hid, rfl, lookup, rfl, head_of_revParse hgit hrun hexit hhead⟩

theorem wp_push {Q : GitResult → List (Look W) → Prop} (hgit : git.Documented)
    (hnames : git.PlainNames) (hs : Justified git log) (adminGit : GitService)
    {branch : List Char} {head : String}
    (hverified : ∀ current lookup origin, git.branch current = some branch →
      GitService.isObjectId head → git.head lookup = some head →
      Verified git (log ++ [.git .branchShowCurrent current, .git .revParseHead lookup,
        .git .remoteGetUrl origin]) head.toList branch)
    (hQ : ∀ result log', Q result log') :
    Wp git (gitStep git) Q (adminGit.push (some ⟨branch, head⟩)) log := by
  unfold GitService.push
  split
  · exact wp_throw
  refine Program.wp_bind hs (wp_run hs nofun fun current shown hshown hs => ?_)
  split
  · exact wp_throw
  next hnamed =>
  obtain ⟨hexit, hne⟩ : shown.exitCode = 0 ∧ (Text.trim shown.stdout).isEmpty = false := by
    simpa using hnamed
  refine wp_ofExcept fun branch' hvalid => ?_
  have hcurrent := branch_of_show hgit hnames hshown hexit hne hvalid
  refine Program.wp_bind hs (Program.wp_mono (wp_pushSource hgit hs) ?_ fun _ _ _ h => h)
  rintro source _ - ⟨hs, rfl, hid, rfl, lookup, rfl, hlookup⟩
  refine Program.wp_bind hs (wp_run hs nofun fun origin url hurl hs => ?_)
  dsimp only
  split
  · exact wp_throw
  refine wp_run hs (fun source' branch'' hpush => ?_) fun _ result _ _ => hQ result _
  obtain ⟨rfl, rfl⟩ := GitCommand.push.inj hpush
  simpa using hverified current lookup origin hcurrent hid hlookup

end Push

/-! ## The gate -/

section Gate

variable {git : Git W} {log : List (Look W)}

theorem wp_cleanBranch {Q : GitResult → List (Look W) → Prop} (hgit : git.Documented)
    (hnames : git.PlainNames) (hs : Justified git log) {g : List Char → GateM GitResult}
    (hg : ∀ w branch, git.branch w = some branch → Clean git w →
      Justified git (log ++ [.git .status w]) →
      Wp git (GateStep git) Q (g branch) (log ++ [.git .status w])) :
    Wp git (GateStep git) Q ((GitService.status.embed GateOp.git fun _ r => r).bind fun result =>
      (Program.ofExcept (cleanBranch result)).bind g) log := by
  refine Program.wp_bind hs (Program.wp_embed (fun _ _ _ _ h => h)
    (wp_run hs nofun fun w result hrun hs => ?_))
  refine wp_ofExcept fun branch hbranch => ?_
  obtain ⟨hclean, name, hname, rfl⟩ := branch_of_cleanBranch hgit hrun hbranch
  rw [hnames hname]
  exact hg w name hname hclean hs

theorem wp_gate (hgit : git.Documented) (hnames : git.PlainNames) (processCwd : AbsPath)
    (adminGit : GitService) (input : Input) :
    Wp git (GateStep git) (fun _ _ => True) (push processCwd adminGit input) [] := by
  unfold push
  split
  · exact wp_throw
  refine wp_cleanBranch hgit hnames justified_nil fun first branch hfirst hclean hs => ?_
  split
  · exact wp_throw
  next hmain =>
  refine Program.wp_bind hs (Program.wp_embed (fun _ _ _ _ h => h)
    (Program.wp_mono (wp_report hs input.cwd) ?_ fun _ _ _ h => h))
  rintro view _ - ⟨hs, headAt, treeAt, detected, answer, observation, store, rfl, hhead, htree,
    hstore, rfl⟩
  split
  · exact wp_throw
  split
  · exact wp_throw
  split
  · exact wp_throw
  next hpass =>
  obtain ⟨hdetected, haccepted⟩ := accepted_of_pass (not_not.mp hpass)
  obtain ⟨file, rfl, hfile⟩ : ∃ file, answer = .ok file ∧ file.parsed = .store store := by
    refine hstore.resolve_left fun hempty => ?_
    obtain ⟨item, hitem⟩ := List.exists_mem_of_ne_nil _ hdetected
    obtain ⟨evidence, hevidence, -⟩ := haccepted item hitem
    rw [hempty] at hevidence
    cases hevidence
  refine wp_cleanBranch hgit hnames hs fun second branch' hsecond hclean' hs => ?_
  split
  · exact wp_throw
  next hsame =>
  obtain rfl : branch' = branch := not_not.mp hsame
  refine Program.wp_embed (fun _ _ _ _ h => h) (wp_push hgit hnames hs adminGit ?_
    fun _ _ => trivial)
  intro current lookup origin hcurrent hid hlookup
  refine ⟨first, headAt, treeAt, second, current, lookup, origin, detected, file, store,
    observation.head, by simp, rfl, hid, hmain, ?_, ?_, ?_, hfile, hdetected, ?_⟩
  · simp [hfirst, hsecond, hcurrent]
  · simp [hclean, hclean']
  · simpa using ⟨hhead, hlookup⟩
  · rw [htree]
    exact haccepted

end Gate

/-- Whenever the gate issues a push, whatever happened to the repository between the steps of the
gate, it pushes the commit that the report saw as the head to a named branch other than `main`
that was the current one at every look; both status observations were clean; and the report had
passing evidence for every check of that commit, recorded in runs without a state change and for
the working tree that the report saw. In particular the branch that is read from a status header
is the current branch, for every name and every upstream. -/
theorem verified_of_push (git : Git W) (hgit : git.Documented) (hnames : git.PlainNames)
    (processCwd : AbsPath) (adminGit : GitService) (input : Input)
    {p : GateM GitResult} {log : List (Look W)}
    (hsteps : Program.Steps (GateStep git) (push processCwd adminGit input, []) (p, log)) :
    (∀ earlier source branch w later, log = earlier ++ .git (.push source branch) w :: later →
      Verified git earlier source branch) ∧
    ∀ w result, git.run .status w = .ok result →
      (∀ branch, cleanBranch result = .ok branch → git.branch w = some branch ∧ Clean git w) ∧
      ∀ name, result.exitCode = 0 → Clean git w → git.branch w = some name → git.head w ≠ none →
        cleanBranch result = if name = "HEAD".toList then
          .error (.policy "Git push requires a named current branch.")
          else GitService.validateBranchName name := by
  refine ⟨?_, fun w result hrun => ⟨fun branch hbranch => ?_,
    fun name hexit hclean hname hhead => cleanBranch_of_clean hgit hrun hexit hclean hname hhead
      (hnames hname)⟩⟩
  · exact (Program.wp_steps hsteps justified_nil
      (wp_gate hgit hnames processCwd adminGit input)).1
  · obtain ⟨hclean, name, hname, rfl⟩ := branch_of_cleanBranch hgit hrun hbranch
    rw [hnames hname]
    exact ⟨hname, hclean⟩

/-! ## Three pushes -/

section Example

/-- The states of an example world: nothing has been changed, or a tracked file has. -/
inductive ExampleWorld where
  | unchanged
  | edited
  deriving DecidableEq

def exampleGit (name : List Char) : Git ExampleWorld where
  branch _ := some name
  head _ := some (hexText 40)
  entries
    | .unchanged => []
    | .edited => [" M src/app.ts".toList]
  workingTreeDigest
    | .unchanged => hexText 64
    | .edited => String.ofList (List.replicate 64 'b')
  run
    | .status, w => .ok ⟨0, (("## ".toList ++ (name ++ "...origin/main [ahead 1]".toList)) ::
        (match w with
          | .unchanged => []
          | .edited => [" M src/app.ts".toList])).flatMap (· ++ ['\n'])⟩
    | .branchShowCurrent, _ => .ok ⟨0, name ++ ['\n']⟩
    | .revParseHead, _ => .ok ⟨0, (hexText 40).toList ++ ['\n']⟩
    | .remoteGetUrl, _ => .ok ⟨0, "https://github.com/o/r\n".toList⟩
    | .push _ _, _ => .ok ⟨0, []⟩

theorem exampleGit_documented {name : List Char} (hname : LegalBranch name) :
    (exampleGit name).Documented where
  legal h := by cases h; exact hname
  objectId h := by cases h; decide +kernel
  entry_line {w entry} h := by
    cases w with
    | unchanged => cases h
    | edited =>
      obtain rfl := List.mem_singleton.mp h
      decide
  status {w result} h _ := by
    refine ⟨name ++ "...origin/main [ahead 1]".toList, .born rfl (by simp [exampleGit])
      (.inr ⟨"origin/main [ahead 1]".toList, rfl, by decide⟩), ?_⟩
    cases h
    cases w <;> rfl
  branchShowCurrent h _ := by cases h; rfl
  revParseHead h _ := by cases h; exact ⟨_, rfl, rfl⟩

def exampleInput : Input := ⟨".", some ⟨"/r"⟩⟩

def exampleAdmin : GitService := ⟨true, GitService.isAllowedGitHubOrigin⟩

/-- Passing evidence of the only check, for the working tree of a state. -/
def exampleEvidence (treeAt : ExampleWorld) : StoredProjectCheckEvidence :=
  { evidenceFor testCheck .PASS 0 with
    workingTreeDigest := (exampleGit []).workingTreeDigest treeAt }

def exampleFile (treeAt : ExampleWorld) : StoreFile :=
  ⟨0, .store { emptyStore observedState with
    evidence := [(testCheck.checkId, exampleEvidence treeAt)] }⟩

/-- The looks of the gate before its push, when the report sees the working tree of a state. -/
def exampleLooks (treeAt : ExampleWorld) : List (Look ExampleWorld) :=
  [.git .status .unchanged, .observedHead .unchanged, .observedWorkingTree treeAt,
    .detectedChecks (.ok [testCheck]), .store (.ok (exampleFile treeAt)),
    .git .status .unchanged, .git .branchShowCurrent .unchanged,
    .git .revParseHead .unchanged, .git .remoteGetUrl .unchanged]

/-- The operations of the example: the report sees a state, everything else the unchanged one. -/
def exampleStep (name : List Char) (treeAt : ExampleWorld) (_ : Unit) (o : GateOp)
    (log : List (Look ExampleWorld)) : Option (o.Res × List (Look ExampleWorld)) :=
  match o with
  | .git command =>
    some ((exampleGit name).run command .unchanged, log ++ [.git command .unchanged])
  | .check (.observeRepositoryState _) =>
    some (.ok { observedState with
      workingTreeDigest := (exampleGit name).workingTreeDigest treeAt },
      log ++ [.observedHead .unchanged, .observedWorkingTree treeAt])
  | .check (.detectChecks _) => some (.ok [testCheck], log ++ [.detectedChecks (.ok [testCheck])])
  | .check (.readStore _) =>
    some (.ok (exampleFile treeAt), log ++ [.store (.ok (exampleFile treeAt))])
  | _ => none

theorem gateStep_of_exampleStep {name : List Char} {treeAt : ExampleWorld} (x : Unit) (o : GateOp)
    (log : List (Look ExampleWorld)) (r : o.Res) (log' : List (Look ExampleWorld))
    (h : exampleStep name treeAt x o log = some (r, log')) :
    GateStep (exampleGit name) o log r log' := by
  cases o with
  | git command => cases h; exact .git command ExampleWorld.unchanged
  | check o =>
    cases o with
    | observeRepositoryState cwd =>
      cases h
      refine GateStep.observe ExampleWorld.unchanged treeAt (.ok _) ?_
      rintro observation ⟨rfl⟩
      exact ⟨rfl, rfl⟩
    | detectChecks root => cases h; exact .detect _
    | readStore fingerprint => cases h; exact .readStore _
    | _ => cases h

theorem steps_to_push (name : List Char) (treeAt : ExampleWorld) (branch : List Char)
    (h : (Program.follow (exampleStep name treeAt) (List.replicate 9 ())
      (push [] exampleAdmin exampleInput, [])).map Prod.snd = some (exampleLooks treeAt ++
        [.git (.push (hexText 40).toList branch) .unchanged])) :
    ∃ p, Program.Steps (GateStep (exampleGit name)) (push [] exampleAdmin exampleInput, [])
      (p, exampleLooks treeAt ++ [.git (.push (hexText 40).toList branch) .unchanged]) := by
  obtain ⟨⟨p, log⟩, hfollow, rfl⟩ := Option.map_eq_some_iff.mp h
  exact ⟨p, Program.steps_of_follow gateStep_of_exampleStep _ (.refl _) hfollow⟩

theorem legal_feature : LegalBranch "feature/x".toList :=
  ⟨by decide, by decide, by decide, by decide, by
    intro front h
    have hlast := congrArg List.getLast? h
    simp at hlast⟩

/-- A push of a branch with an upstream, with nothing changed meanwhile. -/
theorem verified_of_push_unchanged :
    ∃ p log, Program.Steps (GateStep (exampleGit "feature/x".toList))
        (push [] exampleAdmin exampleInput, []) (p, log) ∧
      log = exampleLooks .unchanged ++
        [.git (.push (hexText 40).toList "feature/x".toList) .unchanged] ∧
      Verified (exampleGit "feature/x".toList) (exampleLooks .unchanged) (hexText 40).toList
        "feature/x".toList := by
  obtain ⟨p, hsteps⟩ := steps_to_push "feature/x".toList .unchanged "feature/x".toList
    (by decide +kernel)
  have hnames : (exampleGit "feature/x".toList).PlainNames := by
    intro w name h
    obtain rfl := Option.some.inj h
    decide
  exact ⟨p, _, hsteps, rfl, (verified_of_push _ (exampleGit_documented legal_feature) hnames []
    exampleAdmin exampleInput hsteps).1 _ _ _ _ [] rfl⟩

def paddedName : List Char := "feature/x".toList ++ ['\u00A0']

theorem legal_padded : LegalBranch paddedName :=
  ⟨by decide, by decide, by decide, by decide, by
    intro front h
    have hlast := congrArg List.getLast? h
    rw [List.getLast?_concat] at hlast
    exact absurd hlast (by decide +kernel)⟩

/-- The gate pushes on evidence for a working tree that is not clean, edited only while the report
looked at it; and from a branch whose name ends in white space it pushes to another branch. -/
theorem push_unverified :
    (∃ p evidence, Program.Steps (GateStep (exampleGit "feature/x".toList))
        (push [] exampleAdmin exampleInput, []) (p, exampleLooks .edited ++
          [.git (.push (hexText 40).toList "feature/x".toList) .unchanged]) ∧
      (exampleFile .edited).evidence testCheck.checkId = some evidence ∧
      ∀ w, Clean (exampleGit "feature/x".toList) w →
        evidence.workingTreeDigest ≠ (exampleGit "feature/x".toList).workingTreeDigest w) ∧
    (exampleGit paddedName).Documented ∧
    ∃ p branch, Program.Steps (GateStep (exampleGit paddedName))
        (push [] exampleAdmin exampleInput, []) (p, exampleLooks .unchanged ++
          [.git (.push (hexText 40).toList branch) .unchanged]) ∧
      ∀ w, (exampleGit paddedName).branch w ≠ some branch := by
  refine ⟨?_, exampleGit_documented legal_padded, ?_⟩
  · obtain ⟨p, hsteps⟩ := steps_to_push "feature/x".toList .edited "feature/x".toList
      (by decide +kernel)
    refine ⟨p, exampleEvidence .edited, hsteps, by decide +kernel, fun w hclean => ?_⟩
    cases w with
    | unchanged => decide +kernel
    | edited => exact absurd (hclean _ (List.mem_singleton_self _)) (by decide)
  · obtain ⟨p, hsteps⟩ := steps_to_push paddedName .unchanged "feature/x".toList
      (by decide +kernel)
    exact ⟨p, "feature/x".toList, hsteps,
      fun w h => absurd (Option.some.inj h) (by decide +kernel)⟩

end Example

end ProjectPublishGate
