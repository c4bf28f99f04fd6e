import Fwknox.ReplayProofs
import Mathlib.Data.Fintype.Basic

/-! # Two callers of one cache

    `check_and_insert` takes the lock twice: once to insert, once more inside
    `save_to_file` to copy the map.  The copy is written after the lock is gone, so
    between a caller's copy and its write another caller can run a whole call.  The
    older copy then replaces the newer one, and a nonce that was already reported
    durable leaves the file (`durable_nonce_lost`).

    `durable_of_exclusive` says what repairs it: as long as nobody copies the map while
    somebody else is about to write, every acknowledged nonce is on disk, then and in
    every later state. -/

namespace FwknoxRace

open FwknoxTypes FwknoxClock FwknoxPersist FwknoxWorld FwknoxReplay LruMap EffectProg
open EffectProg.Prog

variable {ι : Type} [DecidableEq ι]

/-- Callers of `check_and_insert` on one cache with a persist path. -/
abbrev CacheCalls (ι : Type) := Calls ι Eff Nonce (Except ReplayError Bool) World

/-- One move of one caller. -/
def move (env : Env) (path : String) (s : CacheCalls ι) (i : ι) : CacheCalls ι :=
  s.move (check_and_insert (some path)) (handler env) i

/-- The state after a schedule. -/
def interleave (env : Env) (path : String) (schedule : List ι) (s : CacheCalls ι) :
    CacheCalls ι :=
  s.run (check_and_insert (some path)) (handler env) schedule

/-- Nobody has called yet. -/
def idle (world : World) (todo : ι → List Nonce) : CacheCalls ι where
  world := world
  clients i := ⟨todo i, none, []⟩

/-- Reading the cache file now gives the nonce back. -/
def OnDisk (path : String) (w : World) (nonce : Nonce) : Prop :=
  ∃ m, read_cache_file path (.ok w.file) = .ok m ∧ nonce ∈ m

/-- A caller was told `Ok(true)`. -/
def Acknowledged (s : CacheCalls ι) (nonce : Nonce) : Prop :=
  ∃ i, (nonce, .ok true) ∈ (s.clients i).returned

/-! ## Control points -/

/-- What is left after the write. -/
def finish (nonce : Nonce) : Except ReplayError Unit → Prog Eff (Except ReplayError Bool)
  | .ok _ => .ret (.ok true)
  | .error e => .op (.pop nonce) (fun _ => .ret (.error e))

/-- About to write the copied entries. -/
def at_write (path : String) (nonce : Nonce) (entries : List Entry) :
    Prog Eff (Except ReplayError Bool) :=
  .op (.writeCacheFile path entries) (finish nonce)

/-- About to copy the map. -/
def at_snapshot (path : String) (nonce : Nonce) : Prog Eff (Except ReplayError Bool) :=
  .op .snapshot (at_write path nonce)

/-- About to look the nonce up and put it in. -/
def at_insert (path : String) (nonce : Nonce) (now : UInt64) :
    Prog Eff (Except ReplayError Bool) :=
  .op (.insertFresh nonce now)
    (fun fresh => if fresh then at_snapshot path nonce else .ret (.ok false))

/-- `check_and_insert`, effect by effect. -/
theorem check_and_insert_eq (path : String) (nonce : Nonce) :
    check_and_insert (some path) nonce
      = .op .systemTime (fun now => at_insert path nonce now.unix_secs) := by
  simp only [check_and_insert, auto_save, save_to_file, bind_eq, perform_bind, bind_op, at_insert,
    at_snapshot]
  congr 1

/-- The caller is about to copy the map. -/
def copying : Option (Nonce × Prog Eff (Except ReplayError Bool)) → Bool
  | some (_, .op .snapshot _) => true
  | _ => false

/-- The caller has copied the map and is about to replace the file. -/
def writing : Option (Nonce × Prog Eff (Except ReplayError Bool)) → Bool
  | some (_, .op (.writeCacheFile _ _) _) => true
  | _ => false

/-- The move does not copy the map while somebody else is about to write. -/
def Exclusive (s : CacheCalls ι) (i : ι) : Prop :=
  copying (s.clients i).running → ∀ j, j ≠ i → ¬writing (s.clients j).running

/-! ## What the other callers cannot take away -/

/-- The call is about to answer `Ok(true)` for the nonce. -/
def accepting : Option (Nonce × Prog Eff (Except ReplayError Bool)) → Nonce → Prop
  | some (nonce, .ret (.ok true)), m => nonce = m
  | _, _ => False

/-- The caller was told `Ok(true)` for the nonce, or is about to be. -/
def ClientTold (c : Client Eff Nonce (Except ReplayError Bool)) (m : Nonce) : Prop :=
  (m, .ok true) ∈ c.returned ∨ accepting c.running m

/-- Some caller was told, or is about to be. -/
def Told (s : CacheCalls ι) (m : Nonce) : Prop := ∃ i, ClientTold (s.clients i) m

/-- Where a call can be while writes succeed. -/
inductive Point where
  | start
  | insert (now : UInt64)
  | snapshot
  | write (entries : List Entry)
  | done (fresh : Bool)

/-- What is left of the call there. -/
def Point.prog (path : String) (nonce : Nonce) : Point → Prog Eff (Except ReplayError Bool)
  | start => .op .systemTime (fun now => at_insert path nonce now.unix_secs)
  | insert now => at_insert path nonce now
  | snapshot => at_snapshot path nonce
  | write entries => at_write path nonce entries
  | done fresh => .ret (.ok fresh)

/-- What is true there. -/
def Point.Holds (s : CacheCalls ι) (nonce : Nonce) : Point → Prop
  | snapshot => nonce ∈ s.world.cache.map
  | write entries => entries.NodupKeys ∧ nonce ∈ entries.keys
      ∧ (∀ m, Told s m → m ∈ entries.keys) ∧ ∀ m ∈ entries.keys, m ∈ s.world.cache.map
  | start | insert _ | done _ => True

/-- The invariant of exclusive schedules. -/
structure Safe (path : String) (s : CacheCalls ι) : Prop where
  kept : ∀ m, Told s m → m ∈ s.world.cache.map ∧ OnDisk path s.world m
  points : ∀ i nonce p, (s.clients i).running = some (nonce, p) →
    ∃ point : Point, p = point.prog path nonce ∧ point.Holds s nonce
  alone : ∀ i j, writing (s.clients i).running → writing (s.clients j).running → i = j

section Moves

variable {env : Env} {path : String} {s : CacheCalls ι} {i : ι} {nonce : Nonce} {w' : World}
  {c' : Client Eff Nonce (Except ReplayError Bool)}

/-- Caller `i` moved to `c'`, and the world to `w'`. -/
def moved (s : CacheCalls ι) (i : ι) (c' : Client Eff Nonce (Except ReplayError Bool))
    (w' : World) : CacheCalls ι where
  world := w'
  clients := Function.update s.clients i c'

/-- Caller `i` went on to the point, and the world to `w'`. -/
abbrev reached (path : String) (s : CacheCalls ι) (i : ι) (nonce : Nonce) (point : Point)
    (w' : World) : CacheCalls ι :=
  moved s i { s.clients i with running := some (nonce, point.prog path nonce) } w'

theorem moved_self : (moved s i c' w').clients i = c' := by
  simp only [moved, Function.update_self]

theorem moved_of_ne {j : ι} (h : j ≠ i) : (moved s i c' w').clients j = s.clients j := by
  simp only [moved, Function.update_of_ne h]

theorem told_moved {m : Nonce} (h : Told (moved s i c' w') m) : ClientTold c' m ∨ Told s m := by
  obtain ⟨j, hj⟩ := h
  by_cases hji : j = i
  · subst hji
    rw [moved_self] at hj
    exact .inl hj
  · rw [moved_of_ne hji] at hj
    exact .inr ⟨j, hj⟩

/-- A move keeps the invariant when the cache only grows, everything told stays on disk,
    and a caller about to write is alone and its copy covers what is told. -/
theorem Safe.of_moved (hs : Safe path s)
    (hcache : ∀ m, m ∈ s.world.cache.map → m ∈ w'.cache.map)
    (hkept : ∀ m, Told (moved s i c' w') m → m ∈ w'.cache.map ∧ OnDisk path w' m)
    (htold : ∀ m, Told (moved s i c' w') m →
      Told s m ∨ ∀ j, j ≠ i → ¬writing (s.clients j).running)
    (hpoint : ∀ n p, c'.running = some (n, p) →
      ∃ point : Point, p = point.prog path n ∧ point.Holds (moved s i c' w') n)
    (halone : writing c'.running → ∀ j, j ≠ i → ¬writing (s.clients j).running) :
    Safe path (moved s i c' w') := by
  refine ⟨hkept, ?_, ?_⟩
  · intro j n p hrun
    by_cases hji : j = i
    · subst hji
      rw [moved_self] at hrun
      exact hpoint n p hrun
    · rw [moved_of_ne hji] at hrun
      obtain ⟨point, rfl, hholds⟩ := hs.points j n p hrun
      refine ⟨point, rfl, ?_⟩
      cases point with
      | start => trivial
      | insert now => trivial
      | snapshot => exact hcache n hholds
      | write entries =>
          -- a copy taken earlier lacks what was told since, so nobody else may have been told
          obtain ⟨nodup, own, told, held⟩ := hholds
          refine ⟨nodup, own, ?_, fun m hm => hcache m (held m hm)⟩
          intro m hm
          rcases htold m hm with hold | hnone
          · exact told m hold
          · exact absurd (by rw [hrun]; rfl) (hnone j hji)
      | done fresh => trivial
  · -- two writers: one of them moved, or both stood still
    intro j k hj hk
    by_cases hji : j = i
    · by_cases hki : k = i
      · rw [hji, hki]
      · subst hji
        rw [moved_self] at hj
        rw [moved_of_ne hki] at hk
        exact absurd hk (halone hj k hki)
    · by_cases hki : k = i
      · subst hki
        rw [moved_self] at hk
        rw [moved_of_ne hji] at hj
        exact absurd hj (halone hk j hji)
      · rw [moved_of_ne hji] at hj
        rw [moved_of_ne hki] at hk
        exact hs.alone j k hj hk

/-- The common case: nothing new is told and the file stays. -/
theorem Safe.of_moved_quietly (hs : Safe path s)
    (hcache : ∀ m, m ∈ s.world.cache.map → m ∈ w'.cache.map) (hfile : w'.file = s.world.file)
    (htold : ∀ m, ClientTold c' m → Told s m)
    (hpoint : ∀ n p, c'.running = some (n, p) →
      ∃ point : Point, p = point.prog path n ∧ point.Holds (moved s i c' w') n)
    (halone : writing c'.running → ∀ j, j ≠ i → ¬writing (s.clients j).running) :
    Safe path (moved s i c' w') := by
  have hold : ∀ m, Told (moved s i c' w') m → Told s m :=
    fun m hm => (told_moved hm).elim (htold m) id
  refine hs.of_moved hcache ?_ (fun m hm => .inl (hold m hm)) hpoint halone
  intro m hm
  obtain ⟨hin, hdisk⟩ := hs.kept m (hold m hm)
  refine ⟨hcache m hin, ?_⟩
  rw [OnDisk, hfile]
  exact hdisk

/-- A call goes on to a point that tells nothing and writes nothing. -/
theorem Safe.reached (hs : Safe path s) (i : ι) (nonce : Nonce) (point : Point)
    (hcache : ∀ m, m ∈ s.world.cache.map → m ∈ w'.cache.map) (hfile : w'.file = s.world.file)
    (htell : ∀ m, ¬accepting (some (nonce, point.prog path nonce)) m)
    (hholds : point.Holds (reached path s i nonce point w') nonce)
    (halone : writing (some (nonce, point.prog path nonce)) →
      ∀ j, j ≠ i → ¬writing (s.clients j).running) :
    Safe path (reached path s i nonce point w') := by
  refine hs.of_moved_quietly hcache hfile ?_ ?_ halone
  · intro m hm
    rcases hm with hret | hrun
    · exact ⟨i, .inl hret⟩
    · exact absurd hrun (htell m)
  · intro n p hrun
    obtain ⟨rfl, rfl⟩ := Prod.mk.inj (Option.some.inj hrun)
    exact ⟨point, rfl, hholds⟩

/-- The insert: a replay changes nothing, a new nonce finds room. -/
theorem Safe.insert (hs : Safe path s) (i : ι) (nonce : Nonce) (now : UInt64)
    (hev : (handler env _ (.insertFresh nonce now) s.world).2.evicted = s.world.evicted) :
    Safe path (FwknoxRace.reached path s i nonce
      (if (handler env _ (.insertFresh nonce now) s.world).1 then .snapshot else .done false)
      (handler env _ (.insertFresh nonce now) s.world).2) := by
  by_cases hmem : nonce ∈ s.world.cache.map
  · rw [handler_insertFresh_of_mem env s.world now hmem]
    exact hs.reached i nonce (.done false) (fun _ hm => hm) rfl (fun _ h => h) trivial
      (fun hw => absurd hw Bool.false_ne_true)
  · rw [handler_insertFresh_of_notMem env s.world now hmem] at hev ⊢
    have hroom : s.world.cache.len < s.world.cache.cap := by
      by_contra hfull
      dsimp only at hev
      rw [if_neg hfull] at hev
      exact absurd hev (Nat.succ_ne_self _)
    have hput := LruCache.put_map_of_room now hmem hroom
    refine hs.reached i nonce .snapshot ?_ rfl (fun _ h => h) (LruCache.mem_put_self _ _ _)
      (fun hw => absurd hw Bool.false_ne_true)
    intro m hm
    show m ∈ (s.world.cache.put nonce now).map
    rw [hput, AList.mem_insert]
    exact .inr hm

/-- The copy holds everything that was told, and nobody else is about to write. -/
theorem Safe.snapshot (hs : Safe path s) (hmem : nonce ∈ s.world.cache.map)
    (hother : ∀ j, j ≠ i → ¬writing (s.clients j).running) :
    Safe path (FwknoxRace.reached path s i nonce (.write s.world.cache.map.entries)
      s.world.next) := by
  refine hs.reached i nonce (.write _) (fun _ hm => hm) rfl (fun _ h => h) ?_ (fun _ => hother)
  refine ⟨s.world.cache.map.nodupKeys, hmem, ?_, fun _ hm => hm⟩
  intro m hm
  rcases told_moved hm with (hret | hrun) | hold
  · exact (hs.kept m ⟨i, .inl hret⟩).1
  · exact absurd hrun id
  · exact (hs.kept m hold).1

/-- The write puts everything that was told on disk. -/
theorem Safe.write (hs : Safe path s) {entries : List Entry} (k : Nat)
    (hrun : writing (s.clients i).running) (hholds : (Point.write entries).Holds s nonce) :
    Safe path (FwknoxRace.reached path s i nonce (.done true)
      { s.world.next with file := some (cache_text (env.order k entries)) }) := by
  obtain ⟨nodup, own, told, held⟩ := hholds
  have hdisk : ∀ m ∈ entries.keys,
      OnDisk path { s.world.next with file := some (cache_text (env.order k entries)) } m := by
    intro m hm
    have hperm := env.order_perm k entries
    obtain ⟨saved, hread, hsaved⟩ := read_cache_text path ((List.perm_nodupKeys hperm).mpr nodup)
    refine ⟨saved, hread, AList.mem_keys.mpr ?_⟩
    have hkeys : saved.keys.Perm entries.keys := by
      show (saved.entries.map Sigma.fst).Perm (entries.map Sigma.fst)
      rw [hsaved]
      exact ((List.reverse_perm _).trans hperm).map Sigma.fst
    exact hkeys.mem_iff.mpr hm
  refine hs.of_moved (fun _ hm => hm) ?_ ?_ ?_ (fun hw => absurd hw Bool.false_ne_true)
  · intro m hm
    have hin : m ∈ entries.keys := by
      rcases told_moved hm with (hret | rfl) | hold
      · exact told m ⟨i, .inl hret⟩
      · exact own
      · exact told m hold
    exact ⟨held m hin, hdisk m hin⟩
  · intro m hm
    right
    intro j hji hw
    exact hji (hs.alone j i hw hrun)
  · intro n p hdone
    obtain ⟨rfl, rfl⟩ := Prod.mk.inj (Option.some.inj hdone)
    exact ⟨.done true, rfl, trivial⟩

/-- A caller takes up its next nonce. -/
theorem Safe.begun (hs : Safe path s) (q : Nonce) (qs : List Nonce) :
    Safe path (moved s i
      { s.clients i with todo := qs, running := some (q, check_and_insert (some path) q) }
      s.world) := by
  rw [check_and_insert_eq]
  refine hs.of_moved_quietly (fun _ hm => hm) rfl ?_ ?_ (fun hw => absurd hw Bool.false_ne_true)
  · intro m hm
    rcases hm with hret | hacc
    · exact ⟨i, .inl hret⟩
    · exact hacc.elim
  · intro n p hstart
    obtain ⟨rfl, rfl⟩ := Prod.mk.inj (Option.some.inj hstart)
    exact ⟨.start, rfl, trivial⟩

/-- A call returns: what it tells now it was about to tell before. -/
theorem Safe.returned (hs : Safe path s) {fresh : Bool}
    (hrun : (s.clients i).running = some (nonce, (Point.done fresh).prog path nonce)) :
    Safe path (moved s i
      { s.clients i with
        running := none, returned := (s.clients i).returned ++ [(nonce, .ok fresh)] }
      s.world) := by
  refine hs.of_moved_quietly (fun _ hm => hm) rfl ?_ (fun _ _ h => nomatch h)
    (fun hw => absurd hw Bool.false_ne_true)
  intro m hm
  refine ⟨i, ?_⟩
  rcases hm with hret | hacc
  · rcases List.mem_append.mp hret with hold | hnew
    · exact .inl hold
    · obtain ⟨rfl, hfresh⟩ := Prod.mk.inj (List.mem_singleton.mp hnew)
      obtain rfl : true = fresh := Except.ok.inj hfresh
      exact .inr (by rw [hrun]; rfl)
  · exact hacc.elim

/-! ## What one move does

    One equation for each thing a caller can be at. -/

theorem move_idle (hrun : (s.clients i).running = none) (htodo : (s.clients i).todo = []) :
    FwknoxRace.move env path s i = s := by
  simp only [FwknoxRace.move, Calls.move, Client.move, hrun, htodo]
  rw [Function.update_eq_self]

theorem move_next {q : Nonce} {qs : List Nonce} (hrun : (s.clients i).running = none)
    (htodo : (s.clients i).todo = q :: qs) :
    FwknoxRace.move env path s i = moved s i
      { s.clients i with todo := qs, running := some (q, check_and_insert (some path) q) }
      s.world := by
  simp only [FwknoxRace.move, Calls.move, Client.move, hrun, htodo, moved]

theorem move_start (hrun : (s.clients i).running = some (nonce, Point.start.prog path nonce)) :
    FwknoxRace.move env path s i = FwknoxRace.reached path s i nonce
      (.insert (env.clock s.world.tick).unix_secs) s.world.next := by
  simp only [FwknoxRace.move, Calls.move, Client.move, hrun, Point.prog, moved]
  rfl

theorem move_insert {now : UInt64}
    (hrun : (s.clients i).running = some (nonce, (Point.insert now).prog path nonce)) :
    FwknoxRace.move env path s i = FwknoxRace.reached path s i nonce
      (if (handler env _ (.insertFresh nonce now) s.world).1 then .snapshot else .done false)
      (handler env _ (.insertFresh nonce now) s.world).2 := by
  simp only [FwknoxRace.move, Calls.move, Client.move, hrun, Point.prog, at_insert, moved]
  cases (handler env _ (.insertFresh nonce now) s.world).1 <;> rfl

theorem move_snapshot
    (hrun : (s.clients i).running = some (nonce, Point.snapshot.prog path nonce)) :
    FwknoxRace.move env path s i = FwknoxRace.reached path s i nonce
      (.write s.world.cache.map.entries) s.world.next := by
  simp only [FwknoxRace.move, Calls.move, Client.move, hrun, Point.prog, at_snapshot, moved]
  rfl

theorem move_write (hpersist : ∀ k, env.persist k = none) {entries : List Entry}
    (hrun : (s.clients i).running = some (nonce, (Point.write entries).prog path nonce)) :
    FwknoxRace.move env path s i = FwknoxRace.reached path s i nonce (.done true)
      { s.world.next with file := some (cache_text (env.order s.world.tick entries)) } := by
  simp only [FwknoxRace.move, Calls.move, Client.move, hrun, Point.prog, at_write, moved,
    handler_writeCacheFile_of_none env s.world (hpersist s.world.tick)]
  rfl

theorem move_done {fresh : Bool}
    (hrun : (s.clients i).running = some (nonce, (Point.done fresh).prog path nonce)) :
    FwknoxRace.move env path s i = moved s i
      { s.clients i with
        running := none, returned := (s.clients i).returned ++ [(nonce, .ok fresh)] }
      s.world := by
  simp only [FwknoxRace.move, Calls.move, Client.move, hrun, Point.prog, moved]

/-- **ONE MOVE** keeps the invariant. -/
theorem Safe.move (hs : Safe path s) (hpersist : ∀ k, env.persist k = none)
    (hex : Exclusive s i) (hev : (move env path s i).world.evicted = s.world.evicted) :
    Safe path (FwknoxRace.move env path s i) := by
  cases hrun : (s.clients i).running with
  | none =>
      cases htodo : (s.clients i).todo with
      | nil =>
          rw [move_idle hrun htodo]
          exact hs
      | cons q qs =>
          rw [move_next hrun htodo]
          exact hs.begun q qs
  | some call =>
      obtain ⟨nonce, p⟩ := call
      obtain ⟨point, rfl, hholds⟩ := hs.points i nonce p hrun
      cases point with
      | start =>
          rw [move_start hrun]
          exact hs.reached i nonce (.insert _) (fun _ hm => hm) rfl (fun _ h => h) trivial
            (fun hw => absurd hw Bool.false_ne_true)
      | insert now =>
          rw [move_insert hrun] at hev ⊢
          exact hs.insert i nonce now hev
      | snapshot =>
          rw [move_snapshot hrun]
          exact hs.snapshot hholds (hex (by rw [hrun]; rfl))
      | write entries =>
          rw [move_write hpersist hrun]
          exact hs.write s.world.tick (by rw [hrun]; rfl) hholds
      | done fresh =>
          rw [move_done hrun]
          exact hs.returned hrun

end Moves

/-! ## Every schedule -/

section Schedules

variable {env : Env} {path : String}

/-- No move gives an eviction back. -/
theorem evicted_le_move (s : CacheCalls ι) (i : ι) :
    s.world.evicted ≤ (move env path s i).world.evicted := by
  simp only [move, Calls.move, Client.move]
  split
  · exact Nat.le_refl _
  · exact Nat.le_refl _
  · exact Nat.le_refl _
  · exact handler_evicted_le env s.world _

theorem evicted_le_interleave (s : CacheCalls ι) (schedule : List ι) :
    s.world.evicted ≤ (interleave env path schedule s).world.evicted := by
  induction schedule generalizing s with
  | nil => exact Nat.le_refl _
  | cons i schedule ih => exact Nat.le_trans (evicted_le_move s i) (ih (move env path s i))

/-- Without evictions no single move evicts. -/
theorem meets_no_eviction {s : CacheCalls ι} {schedule : List ι}
    (hex : s.Meets (check_and_insert (some path)) (handler env) Exclusive schedule)
    (hev : (interleave env path schedule s).world.evicted = s.world.evicted) :
    s.Meets (check_and_insert (some path)) (handler env)
      (fun s i => Exclusive s i ∧ (move env path s i).world.evicted = s.world.evicted)
      schedule := by
  induction schedule generalizing s with
  | nil => trivial
  | cons i schedule ih =>
      have hmove := @evicted_le_move _ _ env path s i
      have hrest := @evicted_le_interleave _ _ env path (move env path s i) schedule
      have hend : (interleave env path schedule (move env path s i)).world.evicted
          = s.world.evicted := hev
      have hsame : (move env path s i).world.evicted = s.world.evicted := by omega
      exact ⟨⟨hex.1, hsame⟩, ih hex.2 (hend.trans hsame.symm)⟩

omit [DecidableEq ι] in
theorem safe_idle (w : World) (todo : ι → List Nonce) : Safe path (idle w todo) := by
  refine ⟨?_, (fun _ _ _ h => nomatch h), (fun _ _ h => absurd h Bool.false_ne_true)⟩
  rintro m ⟨i, hret | hacc⟩
  · exact nomatch hret
  · exact hacc.elim

/-- **ACKNOWLEDGED NONCES ARE DURABLE** in every state of every schedule in which nobody
    copies the map while somebody else is about to write: with writes that succeed and
    without evictions, a nonce that a call answered `Ok(true)` for is in the file. -/
theorem durable_of_exclusive (env : Env) (path : String) (hpersist : ∀ k, env.persist k = none)
    (w : World) (todo : ι → List Nonce) (schedule : List ι)
    (hex : (idle w todo).Meets (check_and_insert (some path)) (handler env) Exclusive schedule)
    (hev : (interleave env path schedule (idle w todo)).world.evicted = w.evicted) (nonce : Nonce)
    (hack : Acknowledged (interleave env path schedule (idle w todo)) nonce) :
    OnDisk path (interleave env path schedule (idle w todo)).world nonce := by
  have hsafe : Safe path (interleave env path schedule (idle w todo)) :=
    Calls.run_induction _ _ (fun _ _ hs hok => hs.move hpersist hok.1 hok.2)
      (safe_idle w todo) (meets_no_eviction hex hev)
  obtain ⟨i, hi⟩ := hack
  exact (hsafe.kept nonce ⟨i, .inl hi⟩).2

end Schedules

/-! ## Two callers -/

instance decidableMeets [Fintype ι] (env : Env) (path : String) :
    (schedule : List ι) → (s : CacheCalls ι) →
      Decidable (s.Meets (check_and_insert (some path)) (handler env) Exclusive schedule)
  | [], _ => .isTrue trivial
  | i :: schedule, s =>
      have := decidableMeets env path schedule (move env path s i)
      inferInstanceAs (Decidable
        ((copying (s.clients i).running = true →
            ∀ j, j ≠ i → ¬writing (s.clients j).running = true)
          ∧ (move env path s i).Meets (check_and_insert (some path)) (handler env) Exclusive
              schedule))

/-- Two places, two callers with one nonce each. -/
def twoCallers : CacheCalls Bool :=
  idle { emptyWorld with cache := LruCache.new 2 (by decide) }
    (fun i => [Vector.replicate 16 (if i then 1 else 0)])

/-- One caller after the other. -/
def inTurn : List Bool := List.replicate 6 false ++ List.replicate 6 true

theorem inTurn_durable :
    OnDisk "/c" (interleave (leapEnv 0) "/c" inTurn twoCallers).world (Vector.replicate 16 0) :=
  durable_of_exclusive (leapEnv 0) "/c" (fun _ => rfl) _ _ inTurn (by decide +kernel)
    (by decide +kernel) _ ⟨false, by decide +kernel⟩

/-- The first caller copies the map; the second runs its whole call; the first writes. -/
def overtaken : List Bool :=
  List.replicate 4 false ++ List.replicate 6 true ++ List.replicate 1 false

/-- Nothing failed and nothing was evicted, the second caller was told `Ok(true)`, and
    its nonce is not in the file. -/
theorem durable_nonce_lost :
    (∀ k, (leapEnv 0).persist k = none)
      ∧ (interleave (leapEnv 0) "/c" overtaken twoCallers).world.evicted
          = twoCallers.world.evicted
      ∧ Acknowledged (interleave (leapEnv 0) "/c" overtaken twoCallers) (Vector.replicate 16 1)
      ∧ ¬OnDisk "/c" (interleave (leapEnv 0) "/c" overtaken twoCallers).world
          (Vector.replicate 16 1) := by
  refine ⟨fun _ => rfl, by decide +kernel, ⟨true, by decide +kernel⟩, ?_⟩
  rintro ⟨m, hread, hmem⟩
  have hfile : (interleave (leapEnv 0) "/c" overtaken twoCallers).world.file
      = some (cache_text [⟨Vector.replicate 16 0, 0⟩]) := by decide +kernel
  obtain ⟨saved, hsaved, hentries⟩ := read_cache_text "/c"
    (List.nodupKeys_singleton (⟨Vector.replicate 16 0, 0⟩ : Entry))
  rw [hfile, hsaved] at hread
  obtain rfl : saved = m := Except.ok.inj hread
  have hkeys : saved.keys = [Vector.replicate 16 0] := by
    show saved.entries.map Sigma.fst = _
    rw [hentries]
    rfl
  have hin := AList.mem_keys.mp hmem
  rw [hkeys] at hin
  exact absurd (List.mem_singleton.mp hin) (by decide)

end FwknoxRace
