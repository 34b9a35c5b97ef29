import ChatgptSystem.Core.Errors
import ChatgptSystem.Core.Paths
import ChatgptSystem.Core.Text
import ChatgptSystem.Foundations.Machine

/-!
# One round of the auto-updater

`runOnce` (`scripts/auto-update-runtime.mjs`): a new commit of `origin/main` is built beside the
release that is current, the link `current` is turned to it, and turned back if the release does not
pass its verification.

* `shouldDeploy`, `currentShaFromLinkTarget`, `ciGateAllows` — the decisions;
* `flipCurrent`, `verifyRelease`, `rollbackCurrent` — the steps of a deployment;
* `runOnce` — the round, with the outcomes of its commands and operations as answers;
* `releases_verified` — when the link is left at the release it was at or at one that was verified.
-/

open FileTree

namespace AutoUpdate

/-! ## Commits and links -/

/-- `SHA_PATTERN.test(name)`. -/
def isReleaseDirName (name : String) : Bool := Text.matchesHex 7 40 false name.toList

def sameCommit (first second : String) : Except String Bool :=
  if !isReleaseDirName first || !isReleaseDirName second then
    .error "Commit SHA karşılaştırması için iki geçerli SHA gerekir."
  else .ok (first = second || second.toList.isPrefixOf first.toList ||
    first.toList.isPrefixOf second.toList)

def shouldDeploy (currentSha : Option String) (originSha : String) : Except String Bool :=
  if !isReleaseDirName originSha then .error "origin/main SHA okunamadı."
  else match currentSha with
    | none => .ok true
    | some currentSha => (sameCommit currentSha originSha).map (!·)

def EXPECTED_ORIGIN_PATTERNS : List String :=
  ["github.com/senoldogann/chatgpt-system", "github.com:senoldogann/chatgpt-system"]

/-- `text.replace(/\.git$/, "")`. -/
def withoutGit (text : List Char) : List Char :=
  if ".git".toList.isSuffixOf text then text.dropLast.dropLast.dropLast.dropLast else text

def validateOriginUrl (url : String) : Except String String :=
  let normalized := withoutGit (Text.trim url.toList)
  if EXPECTED_ORIGIN_PATTERNS.any fun pattern => pattern.toList.isSuffixOf normalized then
    .ok (String.ofList normalized)
  else .error ("Beklenmeyen git origin: " ++ String.ofList normalized ++
    ". Otomatik güncelleme durdu.")

abbrev Link : Type := FileTree.Target Name

/-- `path.resolve(runtimeDir, target)`. -/
def Link.resolved (link : Link) (runtimeDir : AbsPath) : AbsPath :=
  Paths.resolve (link.base runtimeDir) link.comps

/-- `currentShaFromLinkTarget` of a resolved target. -/
def currentShaFromLinkTarget (target : Option AbsPath) : Option String :=
  (target.bind List.getLast?).bind fun base =>
    if isReleaseDirName base.text then some base.text else none

/-- `releaseDirFor`, for the name of a release. -/
def releaseDirFor (runtimeDir : AbsPath) (sha : String) : AbsPath :=
  Paths.resolve runtimeDir [Paths.component "releases".toList, Paths.component sha.toList]

structure CiGate where
  allow : Bool
  reason : String

def ciGateAllows (available requireCi : Bool) (conclusions : List String) : CiGate :=
  if !available then
    if requireCi then ⟨false, "gh yokken --require-ci ile dağıtım yasak."⟩
    else ⟨true, "gh yok; yerel npm run check kapı olacak."⟩
  else if conclusions = [] then
    if requireCi then ⟨false, "CI kaydı yokken --require-ci ile dağıtım yasak."⟩
    else ⟨true, "CI kaydı yok; yerel npm run check kapı olacak."⟩
  else
    let failed := conclusions.filter (· ≠ "success")
    if failed.length > 0 then ⟨false, "CI geçmemiş: " ++ ",".intercalate failed ++ "."⟩
    else ⟨true, "CI success."⟩

/-! ## The steps of a deployment -/

/-- The links of the runtime directory, and, as a ghost, the releases that have passed a
verification. -/
structure Runtime where
  current : Option Link
  previous : Option Link
  verified : List AbsPath
  deriving DecidableEq

structure VerifyAnswers where
  stableDist : Except String AbsPath
  health : Except String (ℕ × String)
  ready : Except String (ℕ × String)
  diagnose : Except String Unit

/-- The outcomes of the commands and operations of a round; those of links tell the error of a call
that fails. -/
structure Answers where
  darwin : Bool
  mkdir : Option String
  originUrl : Except String String
  fetch : Except String Unit
  originSha : Except String String
  catFile : Except String String
  readCurrent : Option String
  ciAvailable : Bool
  ciConclusions : List String
  ensureBuilt : Except String Unit
  readCurrentAgain : Option String
  replaceCurrent : Option String
  replacePrevious : Option String
  migrate : Except String Unit
  restart : Except String Unit
  verify : VerifyAnswers
  readPrevious : Option String
  restoreCurrent : Option String
  restartAgain : Except String Unit
  prune : Except String Unit

structure Options where
  runtimeDir : AbsPath
  requireCi : Bool
  dryRun : Bool

structure RunResult where
  deployed : Bool
  currentSha : Option String
  originSha : String
  skipped : Option String
  wouldDeploy : Option String
  previousSha : Option String
  deriving DecidableEq

/-- What `main` records as `lastResult`. -/
def RunResult.lastResult (result : RunResult) : String :=
  if result.deployed then "deployed"
  else match result.skipped with
    | some reason => "skipped: " ++ reason
    | none =>
      match result.wouldDeploy with
      | some sha => "would-deploy: " ++ sha
      | none => "up-to-date"

/-- The link to a release: `path.relative(runtimeDir, releaseDirFor(runtimeDir, sha))`. -/
def releaseLink (runtimeDir : AbsPath) (sha : String) : Link :=
  ⟨false, Paths.relative runtimeDir (releaseDirFor runtimeDir sha)⟩

/-- `readLinkTarget`, where the answer tells an error other than `ENOENT`. -/
def readLinkTarget (failure : Option String) (link : Option Link) : Except String (Option Link) :=
  match failure with
  | some error => .error error
  | none => .ok link

def flipCurrent (runtimeDir : AbsPath) (sha : String) (answers : Answers) (s : Runtime) :
    Except String (Option String) × Runtime :=
  match readLinkTarget answers.readCurrentAgain s.current with
  | .error error => (.error error, s)
  | .ok oldTarget =>
    let oldSha := currentShaFromLinkTarget (oldTarget.map (·.resolved runtimeDir))
    let newTarget := releaseLink runtimeDir sha
    match answers.replaceCurrent with
    | some error => (.error error, s)
    | none =>
      let s := { s with current := some newTarget }
      match answers.replacePrevious with
      | some error => (.error error, s)
      | none =>
        let previous := if oldTarget.isSome ∧ oldSha.isSome then oldTarget else some newTarget
        (.ok oldSha, { s with previous := previous })

def rollbackCurrent (runtimeDir : AbsPath) (previousSha : Option String) (answers : Answers)
    (s : Runtime) : Except String Unit × Runtime :=
  match readLinkTarget answers.readPrevious s.previous with
  | .error error => (.error error, s)
  | .ok previousTarget =>
    let resolved := currentShaFromLinkTarget (previousTarget.map (·.resolved runtimeDir))
    match resolved.or previousSha with
    | none => (.error "Geri alınacak previous release bulunamadı.", s)
    | some target =>
      match answers.restoreCurrent with
      | some error => (.error error, s)
      | none => (.ok (), { s with current := some (releaseLink runtimeDir target) })

def verifyRelease (runtimeDir : AbsPath) (sha : String) (answers : VerifyAnswers) :
    Except String Unit := do
  let stableDist ← answers.stableDist
  let expectedDist := Paths.resolve (releaseDirFor runtimeDir sha)
    [Paths.component "dist".toList, Paths.component "cli.js".toList]
  if stableDist ≠ expectedDist then
    throw ("current yeni release'i göstermiyor: " ++ String.ofList (Paths.text stableDist) ++ ".")
  else
    let (status, body) ← answers.health.mapError fun error => "healthz erişilemedi: " ++ error ++ "."
    if status ≠ 200 ∨ body ≠ "live" then
      throw ("healthz beklenmedik: " ++ toString status ++ " " ++ body ++ ".")
    else
      let (status, body) ← answers.ready.mapError fun error => "readyz erişilemedi: " ++ error ++ "."
      if status ≠ 200 ∨ body ≠ "ready" then
        throw ("readyz beklenmedik: " ++ toString status ++ " " ++ body ++ ".")
      else answers.diagnose

/-! ## The round -/

/-- How a round goes on before it touches the links: it returns, or deploys a commit. -/
inductive Decision where
  | stop (result : RunResult)
  | deploy (originSha : String)

/-- `runOnce` up to the build. -/
def decision (options : Options) (answers : Answers) (s : Runtime) : Except String Decision := do
  if !answers.darwin then throw "Otomatik güncelleme yalnızca macOS'te çalışır."
  else
    let _ ← answers.mkdir.elim (.ok ()) .error
    let originUrl ← answers.originUrl
    let _ ← validateOriginUrl originUrl
    let _ ← answers.fetch
    let originSha ← answers.originSha
    if !isReleaseDirName originSha then throw "origin/main SHA okunamadı."
    else
      let _ ← answers.catFile
      let currentTarget ← readLinkTarget answers.readCurrent s.current
      let currentSha :=
        currentShaFromLinkTarget (currentTarget.map (·.resolved options.runtimeDir))
      let deploys ← shouldDeploy currentSha originSha
      if !deploys then return .stop ⟨false, currentSha, originSha, none, none, none⟩
      else
        let gate := ciGateAllows answers.ciAvailable options.requireCi answers.ciConclusions
        if !gate.allow then return .stop ⟨false, currentSha, originSha, gate.reason, none, none⟩
        else if options.dryRun then
          return .stop ⟨false, currentSha, originSha, none, originSha, none⟩
        else return .deploy originSha

/-- The `catch` of a verification that has failed. -/
def undo (runtimeDir : AbsPath) (previousSha : Option String) (answers : Answers) (error : String)
    (s : Runtime) : Except String RunResult × Runtime :=
  match rollbackCurrent runtimeDir previousSha answers s with
  | (.error error, s) => (.error error, s)
  | (.ok (), s) =>
    match answers.restartAgain with
    | .error error => (.error error, s)
    | .ok () => (.error error, s)

/-- `runOnce` from the build on. -/
def deploy (runtimeDir : AbsPath) (originSha : String) (answers : Answers) (s : Runtime) :
    Except String RunResult × Runtime :=
  match answers.ensureBuilt with
  | .error error => (.error error, s)
  | .ok () =>
    match flipCurrent runtimeDir originSha answers s with
    | (.error error, s) => (.error error, s)
    | (.ok previousSha, s) =>
      match answers.migrate with
      | .error error => (.error error, s)
      | .ok () =>
        match answers.restart with
        | .error error => (.error error, s)
        | .ok () =>
          match verifyRelease runtimeDir originSha answers.verify with
          | .error error => undo runtimeDir previousSha answers error s
          | .ok () =>
            let s := { s with verified := releaseDirFor runtimeDir originSha :: s.verified }
            match answers.prune with
            | .error error => (.error error, s)
            | .ok () => (.ok ⟨true, originSha, originSha, none, none, previousSha⟩, s)

def runOnce (options : Options) (answers : Answers) (s : Runtime) :
    Except String RunResult × Runtime :=
  match decision options answers s with
  | .error error => (.error error, s)
  | .ok (.stop result) => (.ok result, s)
  | .ok (.deploy originSha) => deploy options.runtimeDir originSha answers s

/-! ## Where the link ends -/

def Runtime.currentRelease (s : Runtime) (runtimeDir : AbsPath) : Option AbsPath :=
  s.current.map (·.resolved runtimeDir)

/-- The link denotes the release it denoted before, or one that has passed a verification. -/
def Kept (runtimeDir : AbsPath) (s s' : Runtime) : Prop :=
  s'.currentRelease runtimeDir = s.currentRelease runtimeDir ∨
    ∃ dir ∈ s'.verified, s'.currentRelease runtimeDir = some dir

/-- The release that a rollback turns the link to: that of the old name, or the new one where there is
no such name. -/
def restoredRelease (runtimeDir : AbsPath) (originSha : String) (s : Runtime) : AbsPath :=
  releaseDirFor runtimeDir
    ((currentShaFromLinkTarget (s.currentRelease runtimeDir)).getD originSha)

/-- A deployment gets from the change of `current` to its verification. -/
structure ReachesVerification (answers : Answers) : Prop where
  replacePrevious : answers.replacePrevious = none
  migrate : answers.migrate = .ok ()
  restart : answers.restart = .ok ()

/-- A deployment fails its verification and is turned back. -/
structure RollsBack (runtimeDir : AbsPath) (originSha : String) (answers : Answers) : Prop where
  reached : ReachesVerification answers
  failed : verifyRelease runtimeDir originSha answers.verify ≠ .ok ()
  readPrevious : answers.readPrevious = none
  restoreCurrent : answers.restoreCurrent = none

/-- The link, which has been changed, is turned back to the release that was current, or to one that was
verified before; or it is not turned back, and the new release is verified by then. -/
def Deployed (runtimeDir : AbsPath) (originSha : String) (answers : Answers) (s : Runtime) : Prop :=
  (RollsBack runtimeDir originSha answers →
    s.currentRelease runtimeDir = some (restoredRelease runtimeDir originSha s) ∨
      restoredRelease runtimeDir originSha s ∈ s.verified) ∧
  (¬ RollsBack runtimeDir originSha answers →
    (ReachesVerification answers ∧ verifyRelease runtimeDir originSha answers.verify = .ok ()) ∨
    releaseDirFor runtimeDir originSha ∈ s.verified)

/-- If the round changes the link, it is left at a release that it may denote. -/
def Survives (options : Options) (answers : Answers) (s : Runtime) : Prop :=
  ∀ originSha, decision options answers s = .ok (.deploy originSha) → answers.ensureBuilt = .ok () →
    answers.readCurrentAgain = none → answers.replaceCurrent = none →
    Deployed options.runtimeDir originSha answers s

section Links

variable {runtimeDir : AbsPath} {sha : String}

theorem isName_of_isReleaseDirName (h : isReleaseDirName sha = true) : IsName sha := by
  unfold isReleaseDirName Text.matchesHex at h
  simp only [Bool.and_eq_true, decide_eq_true_eq, List.all_eq_true] at h
  obtain ⟨⟨hleast, -⟩, hdigits⟩ := h
  refine ⟨?_, ?_, ?_, fun hslash => ?_⟩
  · rintro rfl
    exact absurd hleast (by decide)
  · rintro rfl
    exact absurd hleast (by decide)
  · rintro rfl
    exact absurd hleast (by decide)
  · exact absurd (hdigits '/' hslash) (by decide)

theorem releaseDirFor_eq (runtimeDir : AbsPath) (h : isReleaseDirName sha = true) :
    ∃ releases : Name,
      releaseDirFor runtimeDir sha =
        runtimeDir ++ [releases, ⟨sha, isName_of_isReleaseDirName h⟩] := by
  have hreleases : IsName (String.ofList "releases".toList) := by decide
  have hsha : IsName (String.ofList sha.toList) := by
    rw [String.ofList_toList]
    exact isName_of_isReleaseDirName h
  refine ⟨⟨_, hreleases⟩, ?_⟩
  rw [releaseDirFor, Paths.component, dif_pos hreleases, Paths.component, dif_pos hsha]
  simp only [Paths.resolve, List.foldl_cons, List.foldl_nil, List.append_assoc,
    List.singleton_append, String.ofList_toList]

theorem resolved_releaseLink (h : isReleaseDirName sha = true) :
    (releaseLink runtimeDir sha).resolved runtimeDir = releaseDirFor runtimeDir sha := by
  obtain ⟨releases, hdir⟩ := releaseDirFor_eq runtimeDir h
  rw [Link.resolved, releaseLink, hdir, Paths.relative_append]
  exact Paths.resolve_names _ _

theorem currentSha_releaseDirFor (h : isReleaseDirName sha = true) :
    currentShaFromLinkTarget (some (releaseDirFor runtimeDir sha)) = some sha := by
  obtain ⟨releases, hdir⟩ := releaseDirFor_eq runtimeDir h
  rw [hdir, currentShaFromLinkTarget, Option.bind_some, List.getLast?_append]
  exact if_pos h

theorem isReleaseDirName_of_currentSha {target : Option AbsPath}
    (h : currentShaFromLinkTarget target = some sha) : isReleaseDirName sha = true := by
  obtain ⟨base, -, hbase⟩ := Option.bind_eq_some_iff.mp h
  split at hbase
  next hname =>
    obtain rfl := Option.some.inj hbase
    exact hname
  next => cases hbase

theorem shouldDeploy_self : shouldDeploy (some sha) sha ≠ .ok true := by
  unfold shouldDeploy sameCommit
  split
  · nofun
  next h => simp [h, Except.map]

end Links

section Rounds

variable {options : Options} {answers : Answers} {s s' : Runtime} {originSha : String}

theorem decision_cases {choice : Decision} (h : decision options answers s = .ok choice) :
    ∃ originSha deploys, isReleaseDirName originSha = true ∧
      shouldDeploy (currentShaFromLinkTarget (s.currentRelease options.runtimeDir)) originSha =
        .ok deploys ∧
      match choice with
      | .deploy sha => sha = originSha ∧ deploys = true
      | .stop result =>
        result.currentSha = currentShaFromLinkTarget (s.currentRelease options.runtimeDir) ∧
        (result.skipped = none → result.wouldDeploy = none → deploys = false) := by
  unfold decision at h
  split at h
  · cases h
  obtain ⟨_, -, h⟩ := Except.bind_eq_ok h
  obtain ⟨_, -, h⟩ := Except.bind_eq_ok h
  obtain ⟨_, -, h⟩ := Except.bind_eq_ok h
  obtain ⟨_, -, h⟩ := Except.bind_eq_ok h
  obtain ⟨originSha, -, h⟩ := Except.bind_eq_ok h
  split at h
  · cases h
  next hname =>
  obtain ⟨_, -, h⟩ := Except.bind_eq_ok h
  obtain ⟨currentTarget, hread, h⟩ := Except.bind_eq_ok h
  obtain rfl : currentTarget = s.current := by
    unfold readLinkTarget at hread
    split at hread
    · cases hread
    · exact (Except.ok.inj hread).symm
  obtain ⟨deploys, hdeploys, h⟩ := Except.bind_eq_ok h
  refine ⟨originSha, deploys, by simpa using hname, hdeploys, ?_⟩
  split at h
  next hstop =>
    cases h
    exact ⟨rfl, fun _ _ => by simpa using hstop⟩
  next hgo =>
  dsimp only at h
  split at h
  · cases h
    exact ⟨rfl, nofun⟩
  · split at h
    · cases h
      exact ⟨rfl, nofun⟩
    · cases h
      exact ⟨rfl, by simpa using hgo⟩

theorem deploy_new (h : decision options answers s = .ok (.deploy originSha)) :
    isReleaseDirName originSha = true ∧
      s.currentRelease options.runtimeDir ≠ some (releaseDirFor options.runtimeDir originSha) := by
  obtain ⟨_, deploys, hname, hdeploys, rfl, rfl⟩ := decision_cases h
  refine ⟨hname, fun hsame => ?_⟩
  rw [hsame, currentSha_releaseDirFor hname] at hdeploys
  exact shouldDeploy_self hdeploys

variable {runtimeDir : AbsPath}

theorem kept_new {dir : AbsPath} (hnew : s.currentRelease runtimeDir ≠ some dir)
    (hcurrent : s'.currentRelease runtimeDir = some dir) :
    Kept runtimeDir s s' ↔ dir ∈ s'.verified := by
  unfold Kept
  rw [hcurrent]
  constructor
  · rintro (hsame | ⟨dir', hverified, hdir⟩)
    · exact absurd hsame.symm hnew
    · exact Option.some.inj hdir ▸ hverified
  · exact fun hverified => .inr ⟨dir, hverified, rfl⟩

/-- The links after `flipCurrent`, if it returns. -/
def flipped (runtimeDir : AbsPath) (originSha : String) (s : Runtime) : Runtime :=
  { s with
    current := some (releaseLink runtimeDir originSha)
    previous :=
      if s.current.isSome ∧
          (currentShaFromLinkTarget (s.currentRelease runtimeDir)).isSome then s.current
      else some (releaseLink runtimeDir originSha) }

theorem flipCurrent_eq (hread : answers.readCurrentAgain = none)
    (hcurrent : answers.replaceCurrent = none) :
    flipCurrent runtimeDir originSha answers s =
      match answers.replacePrevious with
      | some error => (.error error, { s with current := some (releaseLink runtimeDir originSha) })
      | none => (.ok (currentShaFromLinkTarget (s.currentRelease runtimeDir)),
          flipped runtimeDir originSha s) := by
  unfold flipCurrent
  rw [hread, hcurrent]
  rfl

section

variable (hsha : isReleaseDirName originSha = true)

include hsha

theorem restored_flipped :
    (currentShaFromLinkTarget ((flipped runtimeDir originSha s).previous.map (·.resolved runtimeDir))).or
        (currentShaFromLinkTarget (s.currentRelease runtimeDir)) =
      some ((currentShaFromLinkTarget (s.currentRelease runtimeDir)).getD originSha) := by
  have hself : currentShaFromLinkTarget
      ((some (releaseLink runtimeDir originSha)).map (·.resolved runtimeDir)) = some originSha := by
    rw [Option.map_some, resolved_releaseLink hsha]
    exact currentSha_releaseDirFor hsha
  unfold flipped
  cases hold : currentShaFromLinkTarget (s.currentRelease runtimeDir) with
  | none =>
    rw [if_neg (by simp), hself]
    rfl
  | some sha =>
    have hsome : s.current.isSome = true := by
      cases hcurrent : s.current with
      | none =>
        rw [Runtime.currentRelease, hcurrent] at hold
        cases hold
      | some link => rfl
    have hsame : currentShaFromLinkTarget (s.current.map (·.resolved runtimeDir)) = some sha := hold
    rw [if_pos ⟨hsome, rfl⟩, hsame]
    rfl

theorem undo_snd {error : String} (hread : answers.readPrevious = none)
    (hrestore : answers.restoreCurrent = none) :
    (undo runtimeDir (currentShaFromLinkTarget (s.currentRelease runtimeDir)) answers error
      (flipped runtimeDir originSha s)).2 =
      { flipped runtimeDir originSha s with
        current := some (releaseLink runtimeDir
          ((currentShaFromLinkTarget (s.currentRelease runtimeDir)).getD originSha)) } := by
  unfold undo rollbackCurrent readLinkTarget
  rw [hread]
  dsimp only
  rw [restored_flipped hsha, hrestore]
  dsimp only
  cases answers.restartAgain <;> rfl

theorem undo_snd_of_failure {error : String}
    (hfailure : ¬ (answers.readPrevious = none ∧ answers.restoreCurrent = none)) :
    (undo runtimeDir (currentShaFromLinkTarget (s.currentRelease runtimeDir)) answers error
      (flipped runtimeDir originSha s)).2 = flipped runtimeDir originSha s := by
  unfold undo rollbackCurrent readLinkTarget
  cases hread : answers.readPrevious with
  | some error => rfl
  | none =>
    dsimp only
    rw [restored_flipped hsha]
    cases hrestore : answers.restoreCurrent with
    | some error => rfl
    | none => exact absurd ⟨hread, hrestore⟩ hfailure

variable (hnew : s.currentRelease runtimeDir ≠ some (releaseDirFor runtimeDir originSha))

include hnew

theorem kept_of_current (hcurrent : s'.current = some (releaseLink runtimeDir originSha)) :
    Kept runtimeDir s s' ↔ releaseDirFor runtimeDir originSha ∈ s'.verified := by
  refine kept_new hnew ?_
  rw [Runtime.currentRelease, hcurrent, Option.map_some, resolved_releaseLink hsha]

theorem kept_of_failure (h : ¬ ReachesVerification answers)
    (hcurrent : s'.current = some (releaseLink runtimeDir originSha))
    (hverified : s'.verified = s.verified) :
    Kept runtimeDir s s' ↔ Deployed runtimeDir originSha answers s := by
  rw [kept_of_current hsha hnew hcurrent, hverified]
  constructor
  · exact fun hverified => ⟨fun hback => absurd hback.reached h, fun _ => .inr hverified⟩
  · intro hdeployed
    exact (hdeployed.2 fun hback => h hback.reached).resolve_left fun hpass => h hpass.1

theorem kept_deploy :
    Kept runtimeDir s (deploy runtimeDir originSha answers s).2 ↔
      (answers.ensureBuilt = .ok () → answers.readCurrentAgain = none →
        answers.replaceCurrent = none → Deployed runtimeDir originSha answers s) := by
  have hsame : Kept runtimeDir s s := .inl rfl
  unfold deploy
  cases hbuilt : answers.ensureBuilt with
  | error error => exact ⟨fun _ => nofun, fun _ => hsame⟩
  | ok _ =>
  cases hread : answers.readCurrentAgain with
  | some error =>
    unfold flipCurrent
    rw [hread]
    exact ⟨fun _ _ => nofun, fun _ => hsame⟩
  | none =>
  cases hcurrent : answers.replaceCurrent with
  | some error =>
    unfold flipCurrent
    rw [hread, hcurrent]
    exact ⟨fun _ _ _ => nofun, fun _ => hsame⟩
  | none =>
  simp only [forall_const]
  rw [flipCurrent_eq hread hcurrent]
  cases hprevious : answers.replacePrevious with
  | some error =>
    have hstuck : ¬ ReachesVerification answers := fun h => by
      have hnone := h.replacePrevious
      rw [hprevious] at hnone
      cases hnone
    dsimp only
    exact kept_of_failure hsha hnew hstuck rfl rfl
  | none =>
  dsimp only
  cases hmigrate : answers.migrate with
  | error error =>
    have hstuck : ¬ ReachesVerification answers := fun h => by
      have hok := h.migrate
      rw [hmigrate] at hok
      cases hok
    dsimp only
    exact kept_of_failure hsha hnew hstuck rfl rfl
  | ok _ =>
  dsimp only
  cases hrestart : answers.restart with
  | error error =>
    have hstuck : ¬ ReachesVerification answers := fun h => by
      have hok := h.restart
      rw [hrestart] at hok
      cases hok
    dsimp only
    exact kept_of_failure hsha hnew hstuck rfl rfl
  | ok _ =>
  dsimp only
  have hreached : ReachesVerification answers := ⟨hprevious, hmigrate, hrestart⟩
  cases hverify : verifyRelease runtimeDir originSha answers.verify with
  | ok _ =>
    have hdeployed : Deployed runtimeDir originSha answers s :=
      ⟨fun hback => absurd hverify hback.failed, fun _ => .inl ⟨hreached, hverify⟩⟩
    refine ⟨fun _ => hdeployed, fun _ => ?_⟩
    cases answers.prune with
    | error error => exact (kept_of_current hsha hnew rfl).mpr List.mem_cons_self
    | ok _ => exact (kept_of_current hsha hnew rfl).mpr List.mem_cons_self
  | error error =>
  dsimp only
  have hfailed : verifyRelease runtimeDir originSha answers.verify ≠ .ok () := by
    rw [hverify]
    nofun
  by_cases hundo : answers.readPrevious = none ∧ answers.restoreCurrent = none
  · rw [undo_snd hsha hundo.1 hundo.2]
    have hback : RollsBack runtimeDir originSha answers := ⟨hreached, hfailed, hundo.1, hundo.2⟩
    have hname : isReleaseDirName
        ((currentShaFromLinkTarget (s.currentRelease runtimeDir)).getD originSha) = true := by
      cases hold : currentShaFromLinkTarget (s.currentRelease runtimeDir) with
      | none => exact hsha
      | some sha => exact isReleaseDirName_of_currentSha hold
    have hdenotes (verified : List AbsPath) (previous : Option Link) :
        Runtime.currentRelease ⟨some (releaseLink runtimeDir
          ((currentShaFromLinkTarget (s.currentRelease runtimeDir)).getD originSha)), previous,
          verified⟩ runtimeDir = some (restoredRelease runtimeDir originSha s) := by
      rw [Runtime.currentRelease, Option.map_some, resolved_releaseLink hname]
      rfl
    have hkept : Kept runtimeDir s { flipped runtimeDir originSha s with
        current := some (releaseLink runtimeDir
          ((currentShaFromLinkTarget (s.currentRelease runtimeDir)).getD originSha)) } ↔
        (s.currentRelease runtimeDir = some (restoredRelease runtimeDir originSha s) ∨
          restoredRelease runtimeDir originSha s ∈ s.verified) := by
      unfold Kept
      rw [hdenotes]
      constructor
      · rintro (hsame | ⟨dir, hverified, hdir⟩)
        · exact .inl hsame.symm
        · exact .inr (Option.some.inj hdir ▸ hverified)
      · rintro (hsame | hverified)
        · exact .inl hsame.symm
        · exact .inr ⟨_, hverified, rfl⟩
    rw [hkept]
    exact ⟨fun h => ⟨fun _ => h, fun hno => absurd hback hno⟩, fun h => h.1 hback⟩
  · rw [undo_snd_of_failure hsha hundo]
    have hnoBack : ¬ RollsBack runtimeDir originSha answers :=
      fun hback => hundo ⟨hback.readPrevious, hback.restoreCurrent⟩
    refine (kept_of_current hsha hnew rfl).trans ?_
    constructor
    · exact fun hverified => ⟨fun hback => absurd hback hnoBack, fun _ => .inr hverified⟩
    · exact fun hdeployed => (hdeployed.2 hnoBack).resolve_left fun hpass => hfailed hpass.2

end

theorem kept_runOnce : Kept options.runtimeDir s (runOnce options answers s).2 ↔
    Survives options answers s := by
  have hsame : Kept options.runtimeDir s s := .inl rfl
  unfold runOnce Survives
  cases hdecision : decision options answers s with
  | error error => exact ⟨fun _ _ => nofun, fun _ => hsame⟩
  | ok choice =>
    cases choice with
    | stop result => exact ⟨fun _ _ => nofun, fun _ => hsame⟩
    | deploy originSha =>
      obtain ⟨hsha, hnew⟩ := deploy_new hdecision
      refine (kept_deploy hsha hnew).trans ⟨?_, fun h => h originSha rfl⟩
      rintro hdeployed sha ⟨⟩
      exact hdeployed

/-! ## Round after round -/

def rounds (runtimeDir : AbsPath) : Machine Runtime (Options × Answers) := fun s round =>
  if round.1.runtimeDir = runtimeDir then some (runOnce round.1 round.2 s).2 else none

def Trusted (runtimeDir : AbsPath) (first : Runtime) (s : Runtime) : Prop :=
  ∀ dir, s.currentRelease runtimeDir = some dir →
    dir ∈ s.verified ∨ first.currentRelease runtimeDir = some dir

theorem rollbackCurrent_verified (runtimeDir : AbsPath) (previousSha : Option String)
    (answers : Answers) (s : Runtime) :
    (rollbackCurrent runtimeDir previousSha answers s).2.verified = s.verified := by
  unfold rollbackCurrent
  split
  · rfl
  · dsimp only
    split
    · rfl
    · split <;> rfl

theorem undo_verified (runtimeDir : AbsPath) (previousSha : Option String) (answers : Answers)
    (error : String) (s : Runtime) :
    (undo runtimeDir previousSha answers error s).2.verified = s.verified := by
  have hrollback := rollbackCurrent_verified runtimeDir previousSha answers s
  unfold undo
  cases hresult : rollbackCurrent runtimeDir previousSha answers s with
  | mk outcome later =>
    rw [hresult] at hrollback
    cases outcome with
    | error error => exact hrollback
    | ok _ => cases answers.restartAgain <;> exact hrollback

theorem flipCurrent_verified (runtimeDir : AbsPath) (originSha : String) (answers : Answers)
    (s : Runtime) : (flipCurrent runtimeDir originSha answers s).2.verified = s.verified := by
  unfold flipCurrent
  split
  · rfl
  · dsimp only
    split
    · rfl
    · split <;> rfl

theorem deploy_verified (runtimeDir : AbsPath) (originSha : String) (answers : Answers)
    (s : Runtime) : s.verified ⊆ (deploy runtimeDir originSha answers s).2.verified := by
  have hflip := flipCurrent_verified runtimeDir originSha answers s
  unfold deploy
  split
  · exact List.Subset.refl _
  cases hresult : flipCurrent runtimeDir originSha answers s with
  | mk outcome later =>
  rw [hresult] at hflip
  have hlater : s.verified ⊆ later.verified := by
    rw [hflip]
    exact List.Subset.refl _
  cases outcome with
  | error error => exact hlater
  | ok previousSha =>
    dsimp only
    split
    · exact hlater
    · split
      · exact hlater
      · split
        · rw [undo_verified]
          exact hlater
        · split <;> exact List.Subset.trans hlater (List.subset_cons_self _ _)

theorem runOnce_verified (options : Options) (answers : Answers) (s : Runtime) :
    s.verified ⊆ (runOnce options answers s).2.verified := by
  unfold runOnce
  split
  · exact List.Subset.refl _
  · exact List.Subset.refl _
  · exact deploy_verified ..

theorem deployed_of_deploy {result : RunResult}
    (h : (deploy runtimeDir originSha answers s).1 = .ok result) : result.deployed = true := by
  have hundo (previousSha : Option String) (error : String) (s : Runtime) :
      (undo runtimeDir previousSha answers error s).1 ≠ .ok result := by
    unfold undo
    split
    · nofun
    · split <;> nofun
  unfold deploy at h
  split at h
  · cases h
  split at h
  · cases h
  split at h
  · cases h
  split at h
  · cases h
  split at h
  · exact absurd h (hundo _ _ _)
  dsimp only at h
  split at h
  · cases h
  · cases h
    rfl

theorem current_of_up_to_date {result : RunResult} (h : (runOnce options answers s).1 = .ok result)
    (hresult : result.lastResult = "up-to-date") : ∃ dir,
    s.currentRelease options.runtimeDir = some dir ∧
      result.currentSha = currentShaFromLinkTarget (some dir) := by
  obtain ⟨hdeployed, hskipped, hwould⟩ :
      result.deployed = false ∧ result.skipped = none ∧ result.wouldDeploy = none := by
    unfold RunResult.lastResult at hresult
    split at hresult
    · exact absurd hresult (by decide)
    next hdeployed =>
    split at hresult
    next reason _ => simpa using congrArg (fun text => text.toList.head?) hresult
    next hskipped =>
    split at hresult
    next sha _ => simpa using congrArg (fun text => text.toList.head?) hresult
    next hwould => exact ⟨by simpa using hdeployed, hskipped, hwould⟩
  unfold runOnce at h
  split at h
  · cases h
  next stopped hdecision =>
    obtain rfl := Except.ok.inj h
    obtain ⟨originSha, deploys, -, hdeploys, hsha, hfalse⟩ := decision_cases hdecision
    rw [hfalse hskipped hwould] at hdeploys
    cases hrelease : s.currentRelease options.runtimeDir with
    | none =>
      rw [hrelease] at hdeploys
      unfold shouldDeploy at hdeploys
      split at hdeploys <;> cases hdeploys
    | some dir => exact ⟨dir, rfl, hrelease ▸ hsha⟩
  · rw [deployed_of_deploy h] at hdeployed
    cases hdeployed

/-- A round leaves the link at the release that was current, or at one that was verified, exactly under
the condition; and after rounds that meet it, no release is reported to be up to date that was neither
verified nor current before them. -/
theorem releases_verified (runtimeDir : AbsPath) (first s : Runtime) :
    (∀ options answers, options.runtimeDir = runtimeDir →
      (Kept runtimeDir s (runOnce options answers s).2 ↔ Survives options answers s)) ∧
    (Machine.Run (rounds runtimeDir) (fun s round => Survives round.1 round.2 s) first s →
      Trusted runtimeDir first s ∧
      ∀ options answers result, options.runtimeDir = runtimeDir →
        (runOnce options answers s).1 = .ok result → result.lastResult = "up-to-date" →
        ∃ dir, s.currentRelease runtimeDir = some dir ∧
          result.currentSha = currentShaFromLinkTarget (some dir) ∧
          (dir ∈ s.verified ∨ first.currentRelease runtimeDir = some dir)) := by
  refine ⟨fun _ _ hdir => hdir ▸ kept_runOnce, fun hrun => ?_⟩
  have htrusted : Trusted runtimeDir first s := by
    refine hrun.invariant ?_ fun dir hdir => .inr hdir
    rintro s ⟨options, answers⟩ s' hs hsurvives hstep dir hdir
    unfold rounds at hstep
    split at hstep
    next hoptions =>
      subst hoptions
      obtain rfl := Option.some.inj hstep
      rcases kept_runOnce.mpr hsurvives with hsame | ⟨dir', hverified, hdir'⟩
      · exact (hs dir (hsame ▸ hdir)).imp_left fun h => runOnce_verified options answers s h
      · exact .inl (Option.some.inj (hdir'.symm.trans hdir) ▸ hverified)
    next => cases hstep
  refine ⟨htrusted, ?_⟩
  rintro options answers result rfl hresult hlast
  obtain ⟨dir, hdir, hsha⟩ := current_of_up_to_date hresult hlast
  exact ⟨dir, hdir, hsha, htrusted dir hdir⟩

end Rounds

/-! ## Three rounds -/

section Example

def exampleName (text : String) (h : IsName text) : Name := ⟨text, h⟩

def exampleOptions : Options := ⟨[exampleName "runtime" (by decide)], false, false⟩

def exampleAnswers : Answers where
  darwin := true
  mkdir := none
  originUrl := .ok "https://github.com/senoldogann/chatgpt-system.git"
  fetch := .ok ()
  originSha := .ok "c8e069b"
  catFile := .ok "commit"
  readCurrent := none
  ciAvailable := true
  ciConclusions := ["success"]
  ensureBuilt := .ok ()
  readCurrentAgain := none
  replaceCurrent := none
  replacePrevious := none
  migrate := .ok ()
  restart := .ok ()
  verify :=
    { stableDist := .ok [exampleName "runtime" (by decide), exampleName "releases" (by decide),
        exampleName "c8e069b" (by decide), exampleName "dist" (by decide),
        exampleName "cli.js" (by decide)]
      health := .ok (200, "live")
      ready := .ok (200, "ready")
      diagnose := .ok () }
  readPrevious := none
  restoreCurrent := none
  restartAgain := .ok ()
  prune := .ok ()

def unready : Answers :=
  { exampleAnswers with verify := { exampleAnswers.verify with ready := .ok (503, "starting") } }

def oldRelease : Runtime := ⟨some (releaseLink exampleOptions.runtimeDir "860bf89"), none, []⟩

/-- The first deployment of all is not turned back when its verification fails, nor is a deployment
after which the daily driver does not start; and the next round reports the release to be up to date. -/
theorem unverified_current :
    (∃ s, runOnce exampleOptions unready ⟨none, none, []⟩ =
        (.error "readyz beklenmedik: 503 starting.", s) ∧ s.verified = [] ∧
      s.currentRelease exampleOptions.runtimeDir =
        some (releaseDirFor exampleOptions.runtimeDir "c8e069b") ∧
      ((runOnce exampleOptions unready s).1.map (·.lastResult)) = .ok "up-to-date") ∧
    ∃ s, runOnce exampleOptions { exampleAnswers with restart := .error "daily-driver bootstrap exit 5." }
        oldRelease = (.error "daily-driver bootstrap exit 5.", s) ∧ s.verified = [] ∧
      s.currentRelease exampleOptions.runtimeDir =
        some (releaseDirFor exampleOptions.runtimeDir "c8e069b") ∧
      ((runOnce exampleOptions exampleAnswers s).1.map (·.lastResult)) = .ok "up-to-date" := by
  refine ⟨⟨_, Prod.ext ?_ rfl, ?_, ?_, ?_⟩, _, Prod.ext ?_ rfl, ?_, ?_, ?_⟩ <;> decide +kernel

/-- A deployment that fails its verification is turned back to the release that was current. -/
theorem releases_verified_example :
    ∃ s, runOnce exampleOptions unready oldRelease =
        (.error "readyz beklenmedik: 503 starting.", s) ∧
      Kept exampleOptions.runtimeDir oldRelease s := by
  refine ⟨_, Prod.ext (by decide +kernel) rfl,
    ((releases_verified exampleOptions.runtimeDir oldRelease oldRelease).1 exampleOptions unready
      rfl).mpr ?_⟩
  intro originSha hdecision _ _ _
  have hsha : decision exampleOptions unready oldRelease = .ok (.deploy "c8e069b") := by rfl
  rw [hsha] at hdecision
  cases hdecision
  have hrestored : oldRelease.currentRelease exampleOptions.runtimeDir =
      some (restoredRelease exampleOptions.runtimeDir "c8e069b" oldRelease) := by decide +kernel
  have hback : RollsBack exampleOptions.runtimeDir "c8e069b" unready :=
    ⟨⟨rfl, rfl, rfl⟩, by decide +kernel, rfl, rfl⟩
  exact ⟨fun _ => .inl hrestored, fun hno => absurd hback hno⟩

end Example

end AutoUpdate
