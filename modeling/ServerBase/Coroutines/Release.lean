import ServerBase.Coroutines.Process

/-!
# Coroutines are released once

What the ledgers of the manager say about whole runs, in which code outside of the coroutines and
the bodies of the coroutines call the manager in any order.

**Main result** (`released_once`). No coroutine is destroyed twice and no user data freed twice, the
cleanup keeps what is not dead, the count is what was created and not destroyed, and
`DestroyAllCoroutines` leaves nothing.
-/

namespace ServerBase

open Ledger History

namespace CoroutineManager

variable {m : CoroutineManager} {running : Option CoroPtr} {owed : List CoroPtr}

theorem length_untracked (hm : Owns m running owed) :
    m.untracked.length = m.mUntrackedCoroutines.length := by
  have hsome := hm.isCoro
  unfold untracked
  generalize m.mUntrackedCoroutines = l at hsome
  induction l with
  | nil => rfl
  | cons coro l ih =>
      obtain ⟨co, hco⟩ := Option.isSome_iff_exists.1 (hsome coro List.mem_cons_self)
      rw [List.filterMap_cons_some hco, List.length_cons, List.length_cons,
        ih fun c hc => hsome c (List.mem_cons_of_mem _ hc)]

theorem count_eq (hm : Inv m running owed) :
    m.mCoroutineData.count = BitVec.ofNat 32 m.managed.length := by
  have hcard := hm.card
  have hle := hm.slots.length_le
  refine BitVec.eq_of_toNat_eq ?_
  rw [SSlotMap.count, BitVec.toNat_setWidth, BitVec.toNat_sub, BitVec.toNat_ofNat,
    BitVec.toNat_ofNat, BitVec.toNat_ofNat]
  omega

/-- `GetCoroutineCount` is the number of coroutines created and not destroyed. -/
theorem getCoroutineCount_eq (hm : Inv m running owed) :
    m.getCoroutineCount = BitVec.ofNat 32 (m.nextCoro - m.destroyed.length) := by
  have hlength := hm.balanced.length_eq
  rw [List.length_append, List.length_range, length_untracked hm.toOwns] at hlength
  rw [getCoroutineCount, count_eq hm, ← BitVec.ofNat_add]
  exact congrArg _ (by omega)

variable {p : Proc}

/-- **Coroutines are released once.** -/
theorem released_once (hp : proc.Run Allowed p) :
    p.m.destroyed.Nodup ∧ p.m.freed.Nodup ∧ AtEach FreedInOrder p.m.log ∧
      p.m.getCoroutineCount = BitVec.ofNat 32 (p.m.nextCoro - p.m.destroyed.length) ∧
      (p.loop = .outside →
        p.m.cleanupDeadCoroutines.mUntrackedCoroutines =
            p.m.mUntrackedCoroutines.filter (fun coro => !p.m.isDead coro) ∧
          p.m.destroyAllCoroutines.destroyed.Perm (List.range p.m.nextCoro) ∧
          p.owed.Nodup ∧ p.m.destroyAllCoroutines.freed.Perm p.owed) := by
  have hsound := Sound.run hp
  refine ⟨hsound.inv.balanced.released_nodup List.nodup_range,
    hsound.inv.frees.released_nodup hsound.inv.owed_nodup, hsound.inv.order,
    getCoroutineCount_eq hsound.inv, fun hout => ?_⟩
  have hinv := hsound.outside_inv hout
  obtain ⟨-, -, hdestroyed, hfreed⟩ := hinv.destroyAll
  exact ⟨mUntrackedCoroutines_cleanup hinv, hdestroyed, hinv.owed_nodup, hfreed⟩

/-- A managed coroutine yields, an untracked one with user data ends, and the first is destroyed. -/
def someEnded : List Op :=
  [.createUntrackedCoroutine (some 0) (some 7) true, .createManagedCoroutine none true,
    .stepCoroutines, .turn, .leave false, .turn, .turn, .leave true, .turn, .destroyCoroutine 0]

theorem released_once_someEnded :
    ∃ p : Proc, (p.loop = .outside ∧ p.m.destroyed = [1] ∧ p.owed = [0]) ∧
      p.m.destroyed.Nodup ∧ p.m.freed.Nodup ∧ AtEach FreedInOrder p.m.log ∧
      p.m.getCoroutineCount = BitVec.ofNat 32 (p.m.nextCoro - p.m.destroyed.length) ∧
      (p.loop = .outside →
        p.m.cleanupDeadCoroutines.mUntrackedCoroutines =
            p.m.mUntrackedCoroutines.filter (fun coro => !p.m.isDead coro) ∧
          p.m.destroyAllCoroutines.destroyed.Perm (List.range p.m.nextCoro) ∧
          p.owed.Nodup ∧ p.m.destroyAllCoroutines.freed.Perm p.owed) := by
  obtain ⟨p, -, hp, hq⟩ := Machine.exists_run_of_replay proc Allowed someEnded
    (fun p => decide (p.loop = .outside ∧ p.m.destroyed = [1] ∧ p.owed = [0])) (s := {}) rfl
    (by decide +kernel)
  exact ⟨p, of_decide_eq_true hq, released_once hp⟩

end CoroutineManager

end ServerBase
