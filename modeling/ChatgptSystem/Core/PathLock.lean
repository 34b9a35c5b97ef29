import ChatgptSystem.Core.Policy
import Mathlib.Data.List.Dedup
import Mathlib.Data.List.Sort

/-!
# Path locks

`withPathLock` and `withPathLocks` of `core/path-lock.ts`. A lock is a chain of promises
(`ChainLock`) under the canonical form of the path.
-/

open Interleaving

/-- Wait for the promise of the key, run the operation whatever became of it, settle the own
promise and remove it from the map if it is still the last one. -/
def withCanonicalLock {α : Type} (key : AbsPath) (operation : FsM α) : FsM α :=
  .request (.enqueue key) fun (previous, me) =>
  .request (.await previous) fun _ =>
  operation.attempt.bind fun outcome =>
  .request (.settle me) fun _ =>
  .request (.forget key me) fun _ =>
  .ofExcept outcome

def withPathLock {α : Type} (target : AbsPath) (operation : FsM α) : FsM α := do
  let key ← canonicalizePath target
  withCanonicalLock key operation

/-- `Promise.all` over the targets; their reads are issued one target after the other. -/
def canonicalizeAll : List AbsPath → FsM (List AbsPath)
  | [] => pure []
  | target :: rest => do
    let key ← canonicalizePath target
    let keys ← canonicalizeAll rest
    pure (key :: keys)

/-- `[...new Set(canonical)].sort()`. -/
def sortedKeys (canonical : List AbsPath) : List AbsPath :=
  canonical.dedup.insertionSort fun a b => Text.sortsBefore (Paths.text a) (Paths.text b)

/-- `acquire`: take the locks of the keys in order, each inside the one before it. -/
def acquire {α : Type} (operation : FsM α) : List AbsPath → FsM α
  | [] => operation
  | key :: keys => withCanonicalLock key (acquire operation keys)

def withPathLocks {α : Type} (targets : List AbsPath) (operation : FsM α) : FsM α := do
  let canonical ← canonicalizeAll targets
  acquire operation (sortedKeys canonical)

theorem mem_sortedKeys {canonical : List AbsPath} {key : AbsPath} :
    key ∈ sortedKeys canonical ↔ key ∈ canonical := by
  rw [sortedKeys, (List.perm_insertionSort _ _).mem_iff, List.mem_dedup]

theorem nodup_sortedKeys (canonical : List AbsPath) : (sortedKeys canonical).Nodup :=
  (List.perm_insertionSort _ _).nodup_iff.mpr canonical.nodup_dedup

/-- The place of a key in the order of `sort`. -/
def lockRank (key : AbsPath) : List ℕ := (Paths.text key).flatMap Text.codeUnits

theorem lockRank_injective : Function.Injective lockRank :=
  Text.flatMap_codeUnits_injective.comp Paths.text_injective

theorem sortsBefore_iff {a b : AbsPath} :
    Text.sortsBefore (Paths.text a) (Paths.text b) = true ↔ lockRank a ≤ lockRank b := by
  rw [Text.sortsBefore, decide_eq_true_eq]
  rfl

theorem pairwise_sortedKeys (canonical : List AbsPath) :
    (sortedKeys canonical).Pairwise fun a b => lockRank a < lockRank b := by
  have htotal : Std.Total fun a b => Text.sortsBefore (Paths.text a) (Paths.text b) = true :=
    ⟨fun a b => by simpa only [sortsBefore_iff] using le_total _ _⟩
  have htrans : IsTrans AbsPath fun a b =>
      Text.sortsBefore (Paths.text a) (Paths.text b) = true :=
    ⟨fun a b c => by simpa only [sortsBefore_iff] using le_trans⟩
  have hsorted : (sortedKeys canonical).Pairwise fun a b =>
      Text.sortsBefore (Paths.text a) (Paths.text b) = true :=
    List.pairwise_insertionSort _ canonical.dedup
  refine (hsorted.and (nodup_sortedKeys canonical)).imp fun h => ?_
  exact lt_of_le_of_ne (sortsBefore_iff.mp h.1) fun heq => h.2 (lockRank_injective heq)
