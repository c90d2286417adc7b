import OsDev.Kernel.LockSteps

/-! What each access to the interrupt flag, the nesting count and the locks
relies on, and that the code of kernel/spinlock.c and `enter_scheduler` provides
it whenever its callers bracket their calls. -/

namespace OsDev.Kernel.LockDiscipline
open OsDev.Machine.Memory OsDev.Machine.Program OsDev.Machine.Interference
  OsDev.Kernel.SpinLocks OsDev.Kernel.LockSteps

/-- The panics that report broken bracketing. -/
def disciplinePanics : List String :=
  ["popcli", "popcli - interruptible", "acquire", "release", mycpuMessage, "sched ptable.lock", "sched locks",
    "sched interruptible"]

/-- The count, the flag and the locks agree with what the running activation has
opened, between any two accesses. -/
structure Sound (v : View) : Prop where
  depth : v.cpu.ncli = v.loc.opened + v.loc.held.card
  range : v.cpu.ncli < 2 ^ 31
  masked : v.cpu.flIf = true → v.cpu.ncli = 0
  locked : ∀ lk, (v.cpu.locks lk).locked = if lk ∈ v.loc.held then 1#32 else 0#32
  cpu : ∀ lk, v.loc.window ≠ some lk → (v.cpu.locks lk).cpu = if lk ∈ v.loc.held then some 0 else none
  window : ∀ lk, v.loc.window = some lk → lk ∈ v.loc.held

/-- Outside the bodies, with so many `pushcli` open and these locks held. -/
structure At (opened : Nat) (held : Finset LockId) (v : View) : Prop where
  sound : Sound v
  opened : v.loc.opened = opened
  held : v.loc.held = held
  window : v.loc.window = none

/-- Everything an interrupt handler that ran to its end may have changed. -/
def Alike (v w : View) : Prop :=
  w.loc = v.loc ∧ (w.cpu = v.cpu ∨ v.cpu.flIf = true ∧ ∃ saved, w.cpu = { v.cpu with intena := saved })

/-- `ptable.lock` and nothing else, as it is handed across `swtch`. -/
def Handoff (v : View) : Prop := At 0 {.ptable} v

def ready : Instr → View → Prop
  | .mycpu, v | .saveIntena, v | .panicIfEnabled _, v => v.cpu.flIf = false
  | .incNcli, v => v.cpu.flIf = false ∧ v.cpu.ncli + 1 < 2 ^ 31
  | .decNcli, v => 1 ≤ v.loc.opened
  | .panicIfHeld found _, v => v.loc.r ≠ found
  | .xchg lk, v => lk ∉ v.loc.held ∧ 1 ≤ v.loc.opened ∧ v.loc.window = none
  | .setCpu lk, v => v.loc.window = some lk
  | .clearCpu lk, v => lk ∈ v.loc.held ∧ v.loc.window = none
  | .clearLocked lk, v => v.loc.window = some lk ∧ (v.cpu.locks lk).cpu = none
  | .checkNcli, v => v.cpu.ncli = 1
  | .swtch, v => Handoff v
  | .panic message, _ => message ∉ disciplinePanics
  | _, _ => True

/-- The machine as the next instruction may find it: after `swtch` other threads
have run, elsewhere at most interrupt handlers. -/
def after : Instr → View → View → Prop
  | .swtch, v, w => w.loc = v.loc ∧ Handoff w
  | i, v, w => Alike (effect i v) w

def rules : Rules Instr View := ⟨ready, after⟩

theorem Alike.refl (v : View) : Alike v v := ⟨rfl, .inl rfl⟩

theorem alike_masked {v w : View} (masked : v.cpu.flIf = false) (alike : Alike v w) : w = v := by
  obtain ⟨loc, cpu | ⟨enabled, -⟩⟩ := alike
  · exact (View.mk.injEq ..).mpr ⟨cpu, loc⟩
  · rw [masked] at enabled
    contradiction

theorem alike_ncli {v w : View} (alike : Alike v w) : w.cpu.ncli = v.cpu.ncli := by
  obtain ⟨-, cpu | ⟨-, saved, cpu⟩⟩ := alike
  · rw [cpu]
  · rw [cpu]

theorem Sound.alike {v w : View} (sound : Sound v) (alike : Alike v w) : Sound w := by
  obtain ⟨loc, cpu | ⟨-, saved, cpu⟩⟩ := alike
  · have same : w = v := (View.mk.injEq ..).mpr ⟨cpu, loc⟩
    exact same ▸ sound
  · have same : w = ⟨{ v.cpu with intena := saved }, v.loc⟩ := (View.mk.injEq ..).mpr ⟨cpu, loc⟩
    subst same
    exact ⟨sound.depth, sound.range, sound.masked, sound.locked, sound.cpu, sound.window⟩

theorem At.alike {opened : Nat} {held : Finset LockId} {v w : View} (here : At opened held v) (alike : Alike v w) :
    At opened held w :=
  ⟨here.sound.alike alike, alike.1 ▸ here.opened, alike.1 ▸ here.held, alike.1 ▸ here.window⟩

theorem Sound.disabled {v : View} (sound : Sound v) (inside : 1 ≤ v.loc.opened ∨ v.loc.held.Nonempty) :
    v.cpu.flIf = false := by
  cases enabled : v.cpu.flIf with
  | false => rfl
  | true =>
    have unlocked := sound.masked enabled
    have depth := sound.depth
    rcases inside with opened | nonempty
    · omega
    · have positive := nonempty.card_pos
      omega

theorem sound_xchg (lk : LockId) (v : View) (sound : Sound v) (absent : lk ∉ v.loc.held) (opened : 1 ≤ v.loc.opened)
    (closed : v.loc.window = none) : Sound (effect (.xchg lk) v) where
  depth := by
    have depth := sound.depth
    have card := Finset.card_insert_of_notMem absent
    simp only [effect, setLock, card]
    omega
  range := sound.range
  masked enabled := sound.masked enabled
  locked other := by
    by_cases same : other = lk
    · simp [effect, setLock, same]
    · simpa [effect, setLock, same] using sound.locked other
  cpu other elsewhere := by
    have ne : other ≠ lk := fun same => elsewhere (congrArg some same.symm)
    simpa [effect, setLock, ne] using sound.cpu other (by simp [closed])
  window other found := by simp_all [effect]

/-- A new owner leaves every `locked` as it is. -/
theorem locked_setLock (lk other : LockId) (owner : Option Nat) (p : Processor) :
    ((setLock lk { p.locks lk with cpu := owner } p).locks other).locked = (p.locks other).locked := by
  by_cases same : other = lk
  · rw [same, setLock_self]
  · rw [setLock_other _ _ _ _ same]

theorem sound_setCpu (lk : LockId) (v : View) (sound : Sound v) (inside : v.loc.window = some lk) :
    Sound (effect (.setCpu lk) v) where
  depth := sound.depth
  range := sound.range
  masked enabled := sound.masked enabled
  locked other := (locked_setLock _ _ _ _).trans (sound.locked other)
  cpu other _ := by
    by_cases same : other = lk
    · simp [effect, setLock, same, sound.window lk inside]
    · have elsewhere : v.loc.window ≠ some other := by
        rw [inside]
        exact fun eq => same (Option.some.inj eq).symm
      exact (congrArg Spinlock.cpu (setLock_other lk other _ _ same)).trans (sound.cpu other elsewhere)
  window other found := by simp [effect] at found

theorem sound_clearCpu (lk : LockId) (v : View) (sound : Sound v) (present : lk ∈ v.loc.held)
    (closed : v.loc.window = none) : Sound (effect (.clearCpu lk) v) where
  depth := sound.depth
  range := sound.range
  masked enabled := sound.masked enabled
  locked other := (locked_setLock _ _ _ _).trans (sound.locked other)
  cpu other elsewhere := by
    have ne : other ≠ lk := fun same => elsewhere (congrArg some same.symm)
    exact (congrArg Spinlock.cpu (setLock_other lk other _ _ ne)).trans (sound.cpu other (by simp [closed]))
  window other found := by simp_all [effect]

theorem sound_clearLocked (lk : LockId) (v : View) (sound : Sound v) (inside : v.loc.window = some lk)
    (cleared : (v.cpu.locks lk).cpu = none) : Sound (effect (.clearLocked lk) v) where
  depth := by
    have depth := sound.depth
    have card := Finset.card_erase_add_one (sound.window lk inside)
    simp only [effect, setLock]
    omega
  range := sound.range
  masked enabled := sound.masked enabled
  locked other := by
    by_cases same : other = lk
    · simp [effect, setLock, same]
    · simpa [effect, setLock, same] using sound.locked other
  cpu other _ := by
    by_cases same : other = lk
    · simpa [effect, setLock, same] using cleared
    · have elsewhere : v.loc.window ≠ some other := by
        rw [inside]
        exact fun eq => same (Option.some.inj eq).symm
      simpa [effect, setLock, same] using sound.cpu other elsewhere
  window other found := by simp [effect] at found

theorem effect_sound (i : Instr) (v : View) (sound : Sound v) (allowed : ready i v) : Sound (effect i v) := by
  cases i with
  | xchg lk => exact sound_xchg lk v sound allowed.1 allowed.2.1 allowed.2.2
  | setCpu lk => exact sound_setCpu lk v sound allowed
  | clearCpu lk => exact sound_clearCpu lk v sound allowed.1 allowed.2
  | clearLocked lk => exact sound_clearLocked lk v sound allowed.1 allowed.2
  | cli => exact ⟨sound.depth, sound.range, fun enabled => by simp [effect] at enabled, sound.locked, sound.cpu, sound.window⟩
  | incNcli =>
    have depth := sound.depth
    have count : int32 (v.cpu.ncli + 1) = v.cpu.ncli + 1 := int32_eq (by omega) allowed.2
    refine ⟨?_, ?_, fun enabled => ?_, sound.locked, sound.cpu, sound.window⟩
    · simp only [effect, count]
      omega
    · simp only [effect, count]
      exact allowed.2
    · simp [effect, allowed.1] at enabled
  | decNcli =>
    have depth := sound.depth
    have opened : 1 ≤ v.loc.opened := allowed
    have disabled := sound.disabled (.inl opened)
    have range := sound.range
    have count : int32 (v.cpu.ncli - 1) = v.cpu.ncli - 1 := int32_eq (by omega) (by omega)
    refine ⟨?_, ?_, fun enabled => ?_, sound.locked, sound.cpu, sound.window⟩
    · simp only [effect, count]
      omega
    · simp only [effect, count]
      omega
    · simp [effect, disabled] at enabled
  | restoreIf =>
    refine ⟨sound.depth, sound.range, fun enabled => ?_, sound.locked, sound.cpu, sound.window⟩
    simp only [effect, Bool.or_eq_true, Bool.and_eq_true, decide_eq_true_eq] at enabled
    rcases enabled with already | ⟨outer, -⟩
    · exact sound.masked already
    · exact outer
  | readeflags | mycpu | saveIntena | panicIfEnabled _ | testLock _ | panicIfHeld _ _ | checkNcli | checkRunning
  | keepIntena | putIntena | swtch | panic _ =>
    exact ⟨sound.depth, sound.range, sound.masked, sound.locked, sound.cpu, sound.window⟩

theorem after_sound (i : Instr) (v w : View) (sound : Sound v) (allowed : ready i v) (next : after i v w) :
    Sound w := by
  by_cases switch : i = .swtch
  · subst switch
    exact next.2.sound
  · have alike : Alike (effect i v) w := by
      cases i <;> first | exact next | exact absurd rfl switch
    exact (effect_sound i v sound allowed).alike alike

/-- An admitted instruction goes through, or stops for a reason other than bracketing. -/
theorem ready_fails (i : Instr) (v : View) (sound : Sound v) (allowed : ready i v) (message : String)
    (failed : fails i v = some message) : message ∉ disciplinePanics := by
  cases i with
  | mycpu | panicIfEnabled _ =>
    have disabled : v.cpu.flIf = false := allowed
    simp [fails, disabled] at failed
  | saveIntena =>
    have disabled : v.cpu.flIf = false := allowed
    simp [fails, disabled] at failed
  | decNcli =>
    have depth := sound.depth
    have opened : 1 ≤ v.loc.opened := allowed
    have range := sound.range
    have positive : ¬ int32 (v.cpu.ncli - 1) < 0 := by
      rw [int32_eq (by omega) (by omega)]
      omega
    simp [fails, positive] at failed
  | panicIfHeld found _ =>
    have other : v.loc.r ≠ found := allowed
    simp [fails, other] at failed
  | checkNcli =>
    have single : v.cpu.ncli = 1 := allowed
    simp [fails, single] at failed
  | panic _ =>
    cases failed
    exact allowed
  | _ => cases failed

theorem ready_spins (i : Instr) (v : View) (sound : Sound v) (allowed : ready i v) : spins i v = false := by
  cases i with
  | xchg lk => simp [spins, sound.locked lk, allowed.1]
  | _ => rfl

/-- While interrupts are off nothing comes between two instructions. -/
theorem safe_masked {post : View → Prop} {code : List Instr} {i : Instr} {v : View} (stays : i ≠ .swtch)
    (masked : (effect i v).cpu.flIf = false) :
    Safe rules post (i :: code) v ↔ ready i v ∧ Safe rules post code (effect i v) := by
  have next : ∀ w, after i v w ↔ Alike (effect i v) w := by
    intro w
    cases i <;> first | rfl | exact absurd rfl stays
  refine and_congr Iff.rfl ⟨fun safe => safe _ ((next _).mpr (.refl _)), fun safe w step => ?_⟩
  rw [alike_masked masked ((next w).mp step)]
  exact safe

theorem safe_at {opened : Nat} {held : Finset LockId} {code : List Instr} {v : View} (sound : Sound v)
    (safe : Safe rules (fun w => w.loc.opened = opened ∧ w.loc.held = held ∧ w.loc.window = none) code v) :
    Safe rules (At opened held) code v :=
  (safe.with_invariant sound after_sound).imp fun _ last => ⟨last.1, last.2.1, last.2.2.1, last.2.2.2⟩

section Codes
variable {opened : Nat} {held : Finset LockId} {v : View}

theorem At.ncli (here : At opened held v) : v.cpu.ncli = opened + held.card := by
  have depth := here.sound.depth
  rwa [here.opened, here.held] at depth

theorem safe_pushcli (here : At opened held v) (room : opened + held.card + 1 < 2 ^ 31) :
    Safe rules (At (opened + 1) held) pushcliCode v := by
  refine safe_at here.sound ⟨trivial, fun t read => ⟨trivial, fun u closed => ?_⟩⟩
  have masked : u = effect .cli t := alike_masked rfl closed
  have loc : t.loc = (effect .readeflags v).loc := read.1
  have count : t.cpu.ncli = v.cpu.ncli := alike_ncli (v := effect .readeflags v) read
  have level := here.ncli
  subst masked
  rw [safe_masked (by simp) (by simp [effect]), safe_masked (by simp) (by simp [effect]),
    safe_masked (by simp) (by simp [effect]), safe_masked (by simp) (by simp [effect])]
  refine ⟨rfl, rfl, rfl, ⟨rfl, ?_⟩, ?_⟩
  · simp only [effect, count]
    omega
  · simp [Safe, effect, loc, here.opened, here.held, here.window]

theorem safe_popcli (here : At (opened + 1) held v) :
    Safe rules (fun w => At opened held w ∧ w.loc.r = v.loc.r) popcliCode v := by
  have masked := here.sound.disabled (.inl (by rw [here.opened]; omega))
  have closed : Safe rules (fun w => w.loc.opened = opened ∧ w.loc.held = held ∧ w.loc.window = none ∧
      w.loc.r = v.loc.r) popcliCode v := by
    rw [popcliCode, safe_masked (by simp) (by simpa [effect]), safe_masked (by simp) (by simpa [effect]),
      safe_masked (by simp) (by simpa [effect]), safe_masked (by simp) (by simpa [effect])]
    refine ⟨masked, masked, ?_, masked, trivial, fun w alike => ?_⟩
    · simp [ready, effect, here.opened]
    · simp [alike.1, effect, here.opened, here.held, here.window]
  exact (closed.with_invariant here.sound after_sound).imp fun _ last =>
    ⟨⟨last.1, last.2.1, last.2.2.1, last.2.2.2.1⟩, last.2.2.2.2⟩

theorem At.held_iff (here : At opened held v) (lk : LockId) : Held (v.cpu.locks lk) ↔ lk ∈ held := by
  have locked := here.sound.locked lk
  have cpu := here.sound.cpu lk (by simp [here.window])
  rw [here.held] at locked cpu
  by_cases present : lk ∈ held
  · simp [Held, locked, cpu, present]
  · simp [Held, locked, present]

theorem safe_holding (lk : LockId) (here : At opened held v) (room : opened + held.card + 1 < 2 ^ 31) :
    Safe rules (fun w => At opened held w ∧ w.loc.r = decide (lk ∈ held)) (holdingCode lk) v := by
  refine (safe_pushcli here room).seq fun t pushed => ?_
  have masked := pushed.sound.disabled (.inl (by rw [pushed.opened]; omega))
  rw [List.cons_append, List.cons_append, List.nil_append, safe_masked (by simp) (by simpa [effect]),
    safe_masked (by simp) (by simpa [effect])]
  refine ⟨masked, trivial, ?_⟩
  have tested : At (opened + 1) held (effect (.testLock lk) t) :=
    ⟨effect_sound _ t pushed.sound trivial, pushed.opened, pushed.held, pushed.window⟩
  refine (safe_popcli tested).imp fun w popped => ⟨popped.1, ?_⟩
  rw [popped.2]
  exact decide_eq_decide.mpr (pushed.held_iff lk)

theorem safe_acquire (lk : LockId) (absent : lk ∉ held) (here : At opened held v)
    (room : opened + held.card + 2 < 2 ^ 31) : Safe rules (At opened (insert lk held)) (acquireCode lk) v := by
  refine (safe_pushcli here (by omega)).seq fun t pushed => (safe_holding lk pushed (by omega)).seq fun u probed => ?_
  have masked := probed.1.sound.disabled (.inl (by rw [probed.1.opened]; omega))
  refine safe_at probed.1.sound ?_
  rw [safe_masked (by simp) (by simpa [effect]), safe_masked (by simp) (by simpa [effect]),
    safe_masked (by simp) (by simpa [effect]), safe_masked (by simp) (by simpa [effect])]
  simp [ready, effect, setLock, probed.2, probed.1.opened, probed.1.held, probed.1.window, masked, absent]

theorem safe_release (lk : LockId) (present : lk ∈ held) (here : At opened held v)
    (room : opened + held.card + 1 < 2 ^ 31) : Safe rules (At opened (held.erase lk)) (releaseCode lk) v := by
  refine (safe_holding lk here room).seq fun t probed => ?_
  have inside : lk ∈ t.loc.held := probed.1.held ▸ present
  have masked := probed.1.sound.disabled (.inr ⟨lk, inside⟩)
  have cleared := sound_clearCpu lk t probed.1.sound inside probed.1.window
  rw [List.cons_append, List.cons_append, List.cons_append, List.nil_append, safe_masked (by simp) (by simpa [effect]),
    safe_masked (by simp) (by simpa [effect]), safe_masked (by simp) (by simpa [effect, setLock])]
  have empty : ready (.clearLocked lk) (effect (.clearCpu lk) t) := by simp [ready, effect]
  refine ⟨by simp [ready, probed.2, present], ⟨inside, probed.1.window⟩, empty, ?_⟩
  have unlocked : At (opened + 1) (held.erase lk) (effect (.clearLocked lk) (effect (.clearCpu lk) t)) :=
    ⟨effect_sound _ _ cleared empty, congrArg (· + 1) probed.1.opened, congrArg (Finset.erase · lk) probed.1.held, rfl⟩
  exact (safe_popcli unlocked).imp fun _ popped => popped.1

theorem safe_myproc (here : At opened held v) (room : opened + held.card + 1 < 2 ^ 31) :
    Safe rules (At opened held) myprocCode v := by
  refine (safe_pushcli here room).seq fun t pushed => ?_
  have masked := pushed.sound.disabled (.inl (by rw [pushed.opened]; omega))
  rw [List.cons_append, List.nil_append, safe_masked (by simp) (by simpa [effect])]
  exact ⟨masked, (safe_popcli pushed).imp fun _ popped => popped.1⟩

theorem Handoff.ncli (handed : Handoff v) : v.cpu.ncli = 1 := by
  simpa using At.ncli handed

theorem Handoff.masked (handed : Handoff v) : v.cpu.flIf = false :=
  handed.sound.disabled (.inr (handed.held ▸ Finset.singleton_nonempty _))

theorem safe_enterScheduler (handed : Handoff v) : Safe rules Handoff enterSchedulerCode v := by
  refine (safe_holding .ptable handed (by simp)).seq fun t probed => ?_
  have masked := Handoff.masked probed.1
  rw [List.cons_append, List.cons_append, List.cons_append, List.nil_append, safe_masked (by simp) (by simpa [effect]),
    safe_masked (by simp) (by simpa [effect]), safe_masked (by simp) (by simpa [effect])]
  refine ⟨by simp [ready, probed.2], masked, Handoff.ncli probed.1, ?_⟩
  refine (safe_myproc probed.1 (by simp)).seq fun u found => ?_
  have masked := Handoff.masked found
  rw [safe_masked (by simp) (by simpa [effect]), safe_masked (by simp) (by simpa [effect]),
    safe_masked (by simp) (by simpa [effect]), safe_masked (by simp) (by simpa [effect]),
    safe_masked (by simp) (by simpa [effect])]
  refine ⟨trivial, masked, masked, trivial, masked, ?_, fun w resumed => ?_⟩
  · exact ⟨effect_sound .keepIntena u found.sound trivial, found.opened, found.held, found.window⟩
  · have back := resumed.2
    have masked := back.masked
    rw [safe_masked (by simp) (by simpa [effect]), safe_masked (by simp) (by simpa [effect])]
    exact ⟨masked, trivial, effect_sound .putIntena w back.sound trivial, back.opened, back.held, back.window⟩

theorem safe_exit (warns : Bool) (here : At 0 ∅ v) : Safe rules (At 0 {.ptable}) (exitCode warns) v := by
  refine (safe_myproc here (by simp)).seq fun t found => ?_
  have warned : Safe rules (At 0 ∅) (if warns then acquireCode .cons ++ releaseCode .cons else []) t := by
    cases warns with
    | false => exact found
    | true =>
      refine (safe_acquire .cons (by simp) found (by simp)).seq fun u taken => ?_
      simpa using safe_release .cons (by simp) taken (by simp)
  refine warned.seq fun u ready => (safe_acquire .ptable (by simp) ready (by simp)).seq fun w taken => ?_
  refine (safe_enterScheduler taken).seq fun x back => ?_
  have masked := back.masked
  rw [safe_masked (by simp) (by simpa [effect])]
  exact ⟨by simp [LockDiscipline.ready, disciplinePanics, mycpuMessage], back⟩

end Codes

end OsDev.Kernel.LockDiscipline
