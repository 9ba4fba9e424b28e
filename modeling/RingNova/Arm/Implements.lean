/-
# Machines that implement the interface

A machine implements the interface `Arch` if its operations do for the current process what the
process-level machine does, its exits return to USR mode, and its `context_switch` continues the
next process where that one waits.  Every such machine runs in step with the process-level one
(`Implements.run`), whatever the level it is described at.
-/
import RingNova.Arm.Refinement

namespace RingNova

section

variable {σ : Type} {b : Board}

/-- A machine implements the interface, up to a relation with the process-level machine. -/
structure Implements (L : Layout b) (A : Arch σ) (R : Pid → Phase → σ → ProcMachine → Prop) :
    Prop where
  ops : ∀ c, OpsRel A procArch c (R c)
  leave : ∀ {c a m} (x : Exit), R c x.phase a m → R c .user (A.leave a c x) m
  switch : ∀ {k a m c n} {site : Cont}, R c site.phase a m → n ≠ c → m.cont n ≠ .faultTail →
    m.cont c ≠ .faultTail → Built L k →
    ∃ a', A.switch k a c n site = some (a', m.cont n) ∧ R n (m.cont n).phase a' (m.park c site)

/-- The two systems in step, with the invariant of the process-level one. -/
structure InStep (L : Layout b) (R : Pid → Phase → σ → ProcMachine → Prop) (s : Sys σ)
    (t : Sys ProcMachine) : Prop where
  rel : SysRel R s t
  inv : ∃ c, Inv b t c
  built : Built L t.kern

variable {L : Layout b} {A : Arch σ} {R : Pid → Phase → σ → ProcMachine → Prop} {s : Sys σ}
  {t : Sys ProcMachine}

/-- A call of `schedule` in step. -/
lemma Implements.callSchedule (hA : Implements L A R) {k : Kernel numProcesses} {a : σ}
    {m : ProcMachine} {c : Pid} {site : Cont} (h : R c site.phase a m)
    (hready : CallReady b k m c site) (hbuilt : Built L k) :
    SysRel R (callSchedule A k a c site) (callSchedule procArch k m c site) := by
  refine callSchedule_rel (fun x => hA.leave x) hready.current h ?_
  intro k' n hsch
  obtain ⟨hn, hcont⟩ := hready.switch_cont hsch
  obtain ⟨a', hsw, hrel⟩ := hA.switch h hn hcont hready.noFault (hbuilt.schedule hsch)
  exact ⟨a', m.park c site, m.cont n, hsw, rfl, hrel⟩

/-- **One step of the two systems.** -/
theorem Implements.simulates (hA : Implements L A R) (h : InStep L R s t) (e : Event) :
    Option.Rel (InStep L R) (step A b s e) (step procArch b t e) := by
  obtain ⟨c, hinv⟩ := h.inv
  have hc : s.kern.current = some c := by rw [h.rel.kern, hinv.current]
  have hhandle := handle_rel (hA.ops c) h.rel hinv.current
    (fun buf len n got hctl => (hinv.readArgs buf len n got hctl).valid) b e
  simp only [step, hc, hinv.current]
  generalize handle A b s c e = x at hhandle
  generalize hy : handle procArch b t c e = y at hhandle
  cases hhandle with
  | none => exact .none
  | @some x y hxy =>
    have hstep : step procArch b t e = some (finish procArch c y) := by
      simp [step, hinv.current, hy]
    have hinv' := hinv.preserved hstep
    refine .some ?_
    rcases handle_cases hinv.current hinv.ring (hinv.mode c) hinv.readArgs hy with
      ⟨t', rfl, hq⟩ | ⟨act, site, k, m, marks, hcall, rfl⟩
    · -- a control point of the current process
      cases hxy with
      | point hat =>
        refine ⟨⟨rfl, rfl, ?_⟩, hinv', h.built.trans hq.keeps⟩
        intro c' hc'
        have hcur := (congrArg Core.current hq.core).trans hinv.current
        obtain rfl : c = c' := Option.some.inj (hcur.symm.trans hc')
        exact hat
    · have hready := hcall.callReady hinv
      have hbuilt := h.built.trans (hcall.keeps hinv)
      cases hxy with
      | schedule hrel =>
        exact ⟨hA.callSchedule hrel hready hbuilt, hinv',
          hbuilt.trans (keeps_callSchedule _ _ _ _)⟩

/-- **The two systems make the same runs.** -/
theorem Implements.run (hA : Implements L A R) (h : InStep L R s t) (es : List Event) :
    Option.Rel (InStep L R) (Trace.run (step A b) s es) (Trace.run (step procArch b) t es) :=
  Trace.run_rel (fun _ _ e h => hA.simulates h e) es h

end

end RingNova
