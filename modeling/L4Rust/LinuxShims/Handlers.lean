import L4Rust.LinuxShims

namespace linux_shims

variable {φ : Type} {events before : List (Event φ)} {e : Event φ} {s t : Shims φ}

theorem exists_exit {handler : φ} {during : List Nat} (h : registered events = some (handler, during)) :
    ∃ older, events = sinceExit events ++ .exit handler during :: older := by
  obtain ⟨e, older, hsplit, he⟩ := History.exists_last h
  cases e with
  | exit f d =>
    cases he
    exact ⟨older, hsplit⟩
  | init n => cases he
  | failed n => cases he
  | shutdown invoked => cases he

theorem exit_suffix {handler : φ} {during : List Nat} (h : registered events = some (handler, during)) :
    ∃ older, .exit handler during :: older <:+ events := by
  obtain ⟨older, hsplit⟩ := exists_exit h
  exact ⟨older, sinceExit events, hsplit.symm⟩

namespace HandlersMatch

theorem nil : HandlersMatch ([] : List (Event φ)) where
  failed := by
    intro handler before hsuffix
    simp at hsuffix
  last := by
    intro handler before hsuffix
    simp at hsuffix
  once := by
    intro handler before hsuffix
    simp at hsuffix
  kept := by
    intro invoked before hsuffix
    simp at hsuffix

/-- What happens besides a shutdown matters only where it is the failure of an initialisation. -/
theorem cons (h : HandlersMatch events) (hshutdown : ∀ invoked, e ≠ .shutdown invoked)
    (hfailed : ∀ n, e = .failed n → ∀ handler before, .shutdown (some handler) :: before <:+ events →
      ∀ f during, registered before = some (f, during) → n ∉ during) : HandlersMatch (e :: events) := by
  have hearlier {invoked : Option φ} {before : List (Event φ)}
      (hsuffix : .shutdown invoked :: before <:+ e :: events) : .shutdown invoked :: before <:+ events := by
    rcases List.suffix_cons_iff.mp hsuffix with hhead | hsuffix
    · exact absurd (List.cons.inj hhead).1.symm (hshutdown invoked)
    · exact hsuffix
  constructor
  · intro handler before hsuffix f during hregistered n hn hmem
    rcases List.mem_cons.mp hmem with rfl | hmem
    · exact hfailed n rfl handler before (hearlier hsuffix) f during hregistered hn
    · exact h.failed handler before (hearlier hsuffix) f during hregistered n hn hmem
  · intro handler before hsuffix
    exact h.last handler before (hearlier hsuffix)
  · intro handler before hsuffix
    exact h.once handler before (hearlier hsuffix)
  · intro invoked before hsuffix
    exact h.kept invoked before (hearlier hsuffix)

/-- A shutdown that invokes the handler of a live initialisation. -/
theorem cons_invoked (h : HandlersMatch events) {handler : φ} {during : List Nat}
    (hregistered : registered (sinceInit events) = some (handler, during))
    (hlive : ∀ invoked, .shutdown invoked ∉ sinceInit events)
    (hfailed : ∀ n ∈ during, .failed n ∉ events) :
    HandlersMatch (.shutdown (some handler) :: events) := by
  constructor
  · intro g before hsuffix f d hbefore n hn hmem
    rcases List.mem_cons.mp hmem with hmem | hmem
    · cases hmem
    · rcases List.suffix_cons_iff.mp hsuffix with hhead | hsuffix
      · obtain ⟨-, rfl⟩ := List.cons.inj hhead
        rw [registered, History.last_of_since hregistered] at hbefore
        cases hbefore
        exact hfailed n hn hmem
      · exact h.failed g before hsuffix f d hbefore n hn hmem
  · intro g before hsuffix
    rcases List.suffix_cons_iff.mp hsuffix with hhead | hsuffix
    · cases hhead
      exact ⟨during, hregistered⟩
    · exact h.last g before hsuffix
  · intro g before hsuffix
    rcases List.suffix_cons_iff.mp hsuffix with hhead | hsuffix
    · cases hhead
      exact fun g' => hlive (some g')
    · exact h.once g before hsuffix
  · intro invoked before hsuffix hbefore f d hlast
    rcases List.suffix_cons_iff.mp hsuffix with hhead | hsuffix
    · cases hhead
      rw [hregistered] at hlast
      cases hlast
      rfl
    · exact h.kept invoked before hsuffix hbefore f d hlast

/-- A shutdown that invokes no handler, where no live initialisation has one. -/
theorem cons_none (h : HandlersMatch events)
    (hdead : Live events → registered (sinceInit events) = none) :
    HandlersMatch (.shutdown none :: events) := by
  constructor
  · intro g before hsuffix f d hbefore n hn hmem
    rcases List.suffix_cons_iff.mp hsuffix with hhead | hsuffix
    · cases hhead
    · rcases List.mem_cons.mp hmem with hmem | hmem
      · cases hmem
      · exact h.failed g before hsuffix f d hbefore n hn hmem
  · intro g before hsuffix
    rcases List.suffix_cons_iff.mp hsuffix with hhead | hsuffix
    · cases hhead
    · exact h.last g before hsuffix
  · intro g before hsuffix
    rcases List.suffix_cons_iff.mp hsuffix with hhead | hsuffix
    · cases hhead
    · exact h.once g before hsuffix
  · intro invoked before hsuffix hbefore f d hlast
    rcases List.suffix_cons_iff.mp hsuffix with hhead | hsuffix
    · cases hhead
      rw [hdead hbefore] at hlast
      cases hlast
    · exact h.kept invoked before hsuffix hbefore f d hlast

end HandlersMatch

/-- What a call does, by cases. -/
inductive Step : Shims φ → Call φ → Shims φ → Prop where
  | ignored (s : Shims φ) (c : Call φ) : Step s c s
  | initialised (s : Shims φ) (hdone : s.INIT_DONE = false) : Step s .module_init { s with
      INIT_DONE := true
      running := .init (inits s.events) :: s.running
      events := .init (inits s.events) :: s.events }
  | failed (s : Shims φ) {code : Int32} {n : Nat} {running : List Running} (hcode : code ≠ 0)
      (hrunning : s.running = .init n :: running) : Step s (.init_returns code) { s with
      INIT_DONE := false
      running := running
      events := .failed n :: s.events }
  | succeeded (s : Shims φ) {n : Nat} {running : List Running} (hrunning : s.running = .init n :: running) :
      Step s (.init_returns 0) { s with running := running }
  | registered (s : Shims φ) (exit : φ) (hdone : s.INIT_DONE = true) : Step s (.module_exit exit) { s with
      EXIT_HANDLER := some exit
      events := .exit exit s.initialising :: s.events }
  | invoked (s : Shims φ) {handler : φ} (hdone : s.INIT_DONE = true)
      (hhandler : s.EXIT_HANDLER = some handler) : Step s .module_shutdown { s with
      INIT_DONE := false
      running := .exit :: s.running
      events := .shutdown (some handler) :: s.events }
  | shutdown (s : Shims φ) (hhandler : s.INIT_DONE = true → s.EXIT_HANDLER = none) :
      Step s .module_shutdown { s with INIT_DONE := false, events := .shutdown none :: s.events }
  | exited (s : Shims φ) {running : List Running} (hrunning : s.running = .exit :: running) :
      Step s .exit_returns { s with EXIT_HANDLER := none, running := running }

theorem step_of_run {c : Call φ} (h : Call.run s c = some t) : Step s c t := by
  obtain ⟨done, slot, running, events⟩ := s
  cases c with
  | module_init =>
    cases h
    cases done with
    | true => exact .ignored _ _
    | false => exact .initialised _ rfl
  | init_returns code =>
    match running with
    | .init n :: running =>
      by_cases hcode : code = 0
      · subst hcode
        cases h
        exact .succeeded _ rfl
      · have hfailed : Call.run ⟨done, slot, .init n :: running, events⟩ (.init_returns code) =
            some ⟨false, slot, running, .failed n :: events⟩ := if_pos hcode
        rw [hfailed] at h
        cases h
        exact .failed ⟨done, slot, .init n :: running, events⟩ hcode rfl
    | .exit :: running => cases h
    | [] => cases h
  | module_exit exit =>
    cases h
    cases done with
    | true => exact .registered _ exit rfl
    | false => exact .ignored _ _
  | module_shutdown =>
    cases h
    cases done with
    | true =>
      cases slot with
      | some handler => exact .invoked _ rfl rfl
      | none => exact .shutdown ⟨true, none, running, events⟩ fun _ => rfl
    | false => exact .shutdown ⟨false, slot, running, events⟩ fun htrue => absurd htrue Bool.false_ne_true
  | exit_returns =>
    match running with
    | .exit :: running =>
      cases h
      exact .exited ⟨done, slot, .exit :: running, events⟩ rfl
    | .init n :: running => cases h
    | [] => cases h

@[simp] theorem Shims.mem_initialising {n : Nat} : n ∈ s.initialising ↔ .init n ∈ s.running := by
  unfold Shims.initialising
  rw [List.mem_filterMap]
  constructor
  · rintro ⟨r, hr, hn⟩
    cases r with
    | init m =>
      cases hn
      exact hr
    | exit => cases hn
  · intro hr
    exact ⟨.init n, hr, rfl⟩

/-- How the numbers of the initialisations relate to each other, in the events and in the callbacks
that are running. -/
structure Numbered (running : List Running) (events : List (Event φ)) : Prop where
  latest : ∀ n, latest events = some n → inits events = n + 1
  failed : ∀ n, .failed n ∈ events → n < inits events
  frame : ∀ n, .init n ∈ running → n < inits events ∧ .failed n ∉ events
  during : ∀ handler d before, .exit handler d :: before <:+ events →
    ∀ n ∈ d, n < inits before ∧ .failed n ∉ before
  inside : ∀ handler d before, .exit handler d :: before <:+ events →
    ∀ n, .init n ∈ running → n < inits before → n ∈ d
  nodup : running.Nodup

namespace Numbered

variable {running : List Running}

theorem init (h : Numbered running events) :
    Numbered (.init (inits events) :: running) (.init (inits events) :: events) where
  latest := by
    intro n hn
    cases hn
    simp
  failed := by
    intro n hn
    have hlt := h.failed n (by simpa using hn)
    simp only [inits_init]
    omega
  frame := by
    intro n hn
    rcases List.mem_cons.mp hn with heq | hn
    · cases heq
      refine ⟨by simp, fun hfailed => ?_⟩
      exact absurd (h.failed _ (by simpa using hfailed)) (lt_irrefl _)
    · obtain ⟨hlt, hfailed⟩ := h.frame n hn
      refine ⟨?_, by simpa using hfailed⟩
      simp only [inits_init]
      omega
  during := by
    intro handler d before hsuffix
    exact h.during handler d before (by simpa [List.suffix_cons_iff] using hsuffix)
  inside := by
    intro handler d before hsuffix n hn hlt
    have hsuffix : .exit handler d :: before <:+ events := by simpa [List.suffix_cons_iff] using hsuffix
    rcases List.mem_cons.mp hn with heq | hn
    · -- What began just now was not running at any event before.
      cases heq
      have hle : inits (.exit handler d :: before) ≤ inits events := History.count_le_of_suffix hsuffix
      simp only [Event.number?, inits_cons] at hle
      omega
    · exact h.inside handler d before hsuffix n hn hlt
  nodup := by
    refine List.nodup_cons.mpr ⟨fun hmem => ?_, h.nodup⟩
    exact absurd (h.frame _ hmem).1 (lt_irrefl _)

theorem fail {n : Nat} (h : Numbered (.init n :: running) events) :
    Numbered running (.failed n :: events) where
  latest := by simpa using h.latest
  failed := by
    intro m hm
    simp only [Event.number?, inits_cons]
    rcases List.mem_cons.mp hm with heq | hm
    · cases heq
      exact (h.frame n (List.mem_cons_self ..)).1
    · exact h.failed m hm
  frame := by
    intro m hm
    obtain ⟨hlt, hfailed⟩ := h.frame m (List.mem_cons_of_mem _ hm)
    refine ⟨by simpa using hlt, fun hmem => ?_⟩
    rcases List.mem_cons.mp hmem with heq | hmem
    · cases heq
      exact (List.nodup_cons.mp h.nodup).1 hm
    · exact hfailed hmem
  during := by
    intro handler d before hsuffix
    exact h.during handler d before (by simpa [List.suffix_cons_iff] using hsuffix)
  inside := by
    intro handler d before hsuffix m hm
    exact h.inside handler d before (by simpa [List.suffix_cons_iff] using hsuffix) m
      (List.mem_cons_of_mem _ hm)
  nodup := (List.nodup_cons.mp h.nodup).2

theorem tail {r : Running} (h : Numbered (r :: running) events) : Numbered running events where
  latest := h.latest
  failed := h.failed
  frame n hn := h.frame n (List.mem_cons_of_mem _ hn)
  during := h.during
  inside handler d before hsuffix n hn := h.inside handler d before hsuffix n (List.mem_cons_of_mem _ hn)
  nodup := (List.nodup_cons.mp h.nodup).2

theorem exit {handler : φ} {d : List Nat} (h : Numbered running events)
    (hd : ∀ n, n ∈ d ↔ .init n ∈ running) : Numbered running (.exit handler d :: events) where
  latest := by simpa using h.latest
  failed := by simpa using h.failed
  frame := by simpa using h.frame
  during := by
    intro f d' before hsuffix n hn
    rcases List.suffix_cons_iff.mp hsuffix with hhead | hsuffix
    · cases hhead
      exact h.frame n ((hd n).mp hn)
    · exact h.during f d' before hsuffix n hn
  inside := by
    intro f d' before hsuffix n hn hlt
    rcases List.suffix_cons_iff.mp hsuffix with hhead | hsuffix
    · cases hhead
      exact (hd n).mpr hn
    · exact h.inside f d' before hsuffix n hn hlt
  nodup := h.nodup

theorem shutdown {invoked : Option φ} (h : Numbered running events) :
    Numbered running (.shutdown invoked :: events) where
  latest := by simpa using h.latest
  failed := by simpa using h.failed
  frame := by simpa using h.frame
  during := by
    intro f d before hsuffix
    exact h.during f d before (by simpa [List.suffix_cons_iff] using hsuffix)
  inside := by
    intro f d before hsuffix
    exact h.inside f d before (by simpa [List.suffix_cons_iff] using hsuffix)
  nodup := h.nodup

theorem enter (h : Numbered running events) (hexit : .exit ∉ running) :
    Numbered (.exit :: running) events where
  latest := h.latest
  failed := h.failed
  frame := by simpa using h.frame
  during := h.during
  inside := by simpa using h.inside
  nodup := List.nodup_cons.mpr ⟨hexit, h.nodup⟩

end Numbered

/-- How the static variables relate to what has happened, where no step was troubled. -/
structure Recorded (s : Shims φ) : Prop where
  done : s.INIT_DONE = true → (∃ n, latest s.events = some n) ∧
    (∀ n, .failed n ∉ sinceInit s.events) ∧ ∀ invoked, .shutdown invoked ∉ sinceInit s.events
  handler : ∀ handler, s.EXIT_HANDLER = some handler →
    ∃ during, registered (sinceInit s.events) = some (handler, during)
  cleared : s.EXIT_HANDLER = none → ∀ x, registered s.events = some x →
    ∃ handler, .shutdown (some handler) ∈ sinceExit s.events
  ended : s.INIT_DONE = false → Live s.events → registered (sinceInit s.events) = none
  exiting : .exit ∈ s.running → s.INIT_DONE = false ∧ s.EXIT_HANDLER ≠ none ∧
    ∃ handler, .shutdown (some handler) ∈ sinceExit s.events

namespace Recorded

/-- A live initialisation whose handler slot is empty had no handler registered. -/
theorem none_registered (h : Recorded s) (hslot : s.EXIT_HANDLER = none) (hlive : Live s.events) :
    registered (sinceInit s.events) = none := by
  cases hregistered : registered (sinceInit s.events) with
  | none => rfl
  | some x =>
    obtain ⟨handler, hmem⟩ := h.cleared hslot x (History.last_of_since hregistered)
    exact absurd (History.mem_since_of_since hregistered hmem) (hlive.2 _)

/-- The initialisations during which the handler of a live one was registered have not failed. -/
theorem none_failed (h : Recorded s) (hnumbered : Numbered s.running s.events) (hdone : s.INIT_DONE = true)
    {handler : φ} {during : List Nat} (hregistered : registered (sinceInit s.events) = some (handler, during)) :
    ∀ n ∈ during, .failed n ∉ s.events := by
  intro n hn hmem
  obtain ⟨older, hsplit⟩ := exists_exit (History.last_of_since hregistered)
  have hbefore := hnumbered.during handler during older ⟨_, hsplit.symm⟩ n hn
  rw [hsplit, List.mem_append, List.mem_cons] at hmem
  obtain hsince | heq | holder := hmem
  · exact (h.done hdone).2.1 n (History.mem_since_of_since hregistered hsince)
  · cases heq
  · exact hbefore.2 holder

theorem init (h : Recorded s) (hslot : s.EXIT_HANDLER = none) : Recorded { s with
    INIT_DONE := true
    running := .init (inits s.events) :: s.running
    events := .init (inits s.events) :: s.events } where
  done := by simp
  handler := by simp [hslot]
  cleared := by
    intro _ x hx
    simpa using h.cleared hslot x (by simpa using hx)
  ended := by simp
  exiting := by
    intro hexit
    exact absurd hslot (h.exiting (by simpa using hexit)).2.1

theorem fail (h : Recorded s) (hnumbered : Numbered s.running s.events) {n : Nat} {running : List Running}
    (hrunning : s.running = .init n :: running)
    (hn : StillLive s n ∨ ∀ handler during, .exit handler during ∈ s.events → n ∉ during) :
    Recorded { s with INIT_DONE := false, running := running, events := .failed n :: s.events } where
  done := by simp
  handler := by simpa using h.handler
  cleared := by simpa using h.cleared
  ended := by
    rintro - ⟨⟨m, hlatest, hfailed⟩, hlive⟩
    simp only [Event.number?, latest_cons, sinceInit_cons, List.mem_cons, not_or] at hlatest hfailed hlive
    simp only [Event.number?, sinceInit_cons, Event.registration?, registered_cons]
    have hlive : Live s.events := ⟨⟨m, hlatest, hfailed.2⟩, fun invoked => (hlive invoked).2⟩
    cases hregistered : registered (sinceInit s.events) with
    | none => rfl
    | some x =>
      obtain ⟨handler, during⟩ := x
      obtain ⟨older, hexit⟩ := exit_suffix hregistered
      obtain ⟨before, hbefore, hinits, -⟩ := History.exists_before_since (hexit.mem (List.mem_cons_self ..))
      have hmem : .exit handler during ∈ s.events := hbefore.mem (List.mem_cons_self ..)
      obtain hstill | hduring := hn
      · rw [hstill.2] at hlatest
        cases hlatest
        exact absurd rfl hfailed.1
      · -- The callback was running when the handler was registered.
        have hframe : .init n ∈ s.running := hrunning ▸ List.mem_cons_self ..
        have hlt : n < inits before := (hnumbered.frame n hframe).1.trans_eq hinits.symm
        exact absurd (hnumbered.inside handler during before hbefore n hframe hlt) (hduring handler during hmem)
  exiting := by
    intro hexit
    obtain ⟨-, hslot, handler, hmem⟩ := h.exiting (hrunning ▸ List.mem_cons_of_mem _ hexit)
    exact ⟨rfl, hslot, handler, by simpa using hmem⟩

theorem tail (h : Recorded s) {r : Running} {running : List Running} (hrunning : s.running = r :: running) :
    Recorded { s with running := running } where
  done := h.done
  handler := h.handler
  cleared := h.cleared
  ended := h.ended
  exiting hexit := h.exiting (hrunning ▸ List.mem_cons_of_mem _ hexit)

theorem exit (h : Recorded s) (hdone : s.INIT_DONE = true) {handler : φ} {during : List Nat} :
    Recorded { s with EXIT_HANDLER := some handler, events := .exit handler during :: s.events } where
  done := by simpa using h.done
  handler := by
    intro g hg
    cases hg
    exact ⟨during, by simp⟩
  cleared := by simp
  ended := by simp [hdone]
  exiting := by
    intro hexit
    exact absurd (hdone.symm.trans (h.exiting hexit).1) (by simp)

theorem invoke (h : Recorded s) {handler : φ} (hslot : s.EXIT_HANDLER = some handler) : Recorded { s with
    INIT_DONE := false
    running := .exit :: s.running
    events := .shutdown (some handler) :: s.events } where
  done := by simp
  handler := by simpa using h.handler
  cleared := by simp [hslot]
  ended := by
    rintro - ⟨-, hlive⟩
    exact absurd (by simp) (hlive (some handler))
  exiting := by
    intro _
    exact ⟨rfl, by simp [hslot], handler, by simp⟩

theorem shutdown (h : Recorded s) :
    Recorded { s with INIT_DONE := false, events := .shutdown none :: s.events } where
  done := by simp
  handler := by simpa using h.handler
  cleared := by simpa using h.cleared
  ended := by
    rintro - ⟨-, hlive⟩
    exact absurd (by simp) (hlive none)
  exiting := by
    intro hexit
    obtain ⟨-, hslot, handler, hmem⟩ := h.exiting hexit
    exact ⟨rfl, hslot, handler, by simpa using hmem⟩

theorem clear (h : Recorded s) (hnodup : s.running.Nodup) {running : List Running}
    (hrunning : s.running = .exit :: running) :
    Recorded { s with EXIT_HANDLER := none, running := running } where
  done := by
    intro hdone
    have hexiting := h.exiting (hrunning ▸ List.mem_cons_self ..)
    exact absurd (hexiting.1.symm.trans hdone) Bool.false_ne_true
  handler := by simp
  cleared := by
    intro _ x _
    exact (h.exiting (hrunning ▸ List.mem_cons_self ..)).2.2
  ended := h.ended
  exiting := by
    intro hexit
    rw [hrunning] at hnodup
    exact absurd hexit (List.nodup_cons.mp hnodup).1

end Recorded

/-- Handlers that were invoked before an initialisation, which is live, were not registered in it. -/
theorem not_mem_during_of_stillLive (hnumbered : Numbered s.running s.events) (hrecorded : Recorded s) {n : Nat}
    (hstill : StillLive s n) {invoked : Option φ} (hbefore : .shutdown invoked :: before <:+ s.events)
    {f : φ} {during : List Nat} (hregistered : registered before = some (f, during)) : n ∉ during := by
  intro hn
  obtain ⟨hdone, hlatest⟩ := hstill
  obtain ⟨older, hexit⟩ := exit_suffix hregistered
  have hexit' : .exit f during :: older <:+ s.events :=
    hexit.trans ((List.suffix_cons ..).trans hbefore)
  have holder : n < inits older := (hnumbered.during f during older hexit' n hn).1
  have hle : inits older ≤ inits before :=
    History.count_le_of_suffix ((List.suffix_cons ..).trans hexit)
  have hsome : latest s.events ≠ none := hlatest ▸ Option.some_ne_none n
  have hlt : inits before < inits s.events :=
    History.count_lt_of_suffix hsome ((hrecorded.done hdone).2.2 invoked) rfl hbefore
  have hinits : inits s.events = n + 1 := hnumbered.latest n hlatest
  omega

/-- What an untroubled step preserves. -/
structure InStep (s : Shims φ) : Prop where
  numbered : Numbered s.running s.events
  recorded : Recorded s
  handlersMatch : HandlersMatch s.events

theorem InStep.step {c : Call φ} (h : InStep s) (hc : Untroubled s c) (hstep : Step s c t) : InStep t := by
  obtain ⟨hnumbered, hrecorded, hmatch⟩ := h
  cases hstep with
  | ignored => exact ⟨hnumbered, hrecorded, hmatch⟩
  | initialised hdone =>
    exact ⟨hnumbered.init, hrecorded.init (hc hdone), hmatch.cons nofun nofun⟩
  | @failed code n running hcode hrunning =>
    have hn := hc hcode n running hrunning
    refine ⟨(hrunning ▸ hnumbered).fail, hrecorded.fail hnumbered hrunning hn, hmatch.cons nofun ?_⟩
    intro m hm handler before hbefore f during hregistered
    cases hm
    obtain hstill | hduring := hn
    · exact not_mem_during_of_stillLive hnumbered hrecorded hstill hbefore hregistered
    · obtain ⟨older, hexit⟩ := exit_suffix hregistered
      have hmem : .exit f during ∈ before := hexit.mem (List.mem_cons_self ..)
      exact hduring f during (hbefore.mem (List.mem_cons_of_mem _ hmem))
  | succeeded hrunning =>
    exact ⟨(hrunning ▸ hnumbered).tail, hrecorded.tail hrunning, hmatch⟩
  | registered exit hdone =>
    exact ⟨hnumbered.exit fun n => Shims.mem_initialising, hrecorded.exit hdone, hmatch.cons nofun nofun⟩
  | @invoked handler hdone hslot =>
    have hexit : .exit ∉ s.running := fun hexit =>
      absurd (hdone.symm.trans (hrecorded.exiting hexit).1) (by simp)
    obtain ⟨during, hregistered⟩ := hrecorded.handler handler hslot
    refine ⟨hnumbered.shutdown.enter hexit, hrecorded.invoke hslot, ?_⟩
    exact hmatch.cons_invoked hregistered (hrecorded.done hdone).2.2
      (hrecorded.none_failed hnumbered hdone hregistered)
  | shutdown hslot =>
    refine ⟨hnumbered.shutdown, hrecorded.shutdown, hmatch.cons_none fun hlive => ?_⟩
    cases hdone : s.INIT_DONE with
    | true => exact hrecorded.none_registered (hslot hdone) hlive
    | false => exact hrecorded.ended hdone hlive
  | exited hrunning =>
    exact ⟨(hrunning ▸ hnumbered).tail, hrecorded.clear hnumbered.nodup hrunning, hmatch⟩

theorem inStep_initial : InStep (⟨false, none, [], []⟩ : Shims φ) where
  numbered := by constructor <;> simp [latest, History.last]
  recorded := by constructor <;> simp [registered, sinceInit, History.last, History.since]
  handlersMatch := .nil

/-- A handler that is left from an initialisation is invoked for the next one. -/
theorem exists_mismatch_of_left {past : List (Shims φ × Call φ)} (hrun : (shims φ).Run past s)
    (hdone : s.INIT_DONE = false) {handler : φ} (hslot : s.EXIT_HANDLER = some handler) :
    ∃ later u, (shims φ).Run (past ++ (s, .module_init) :: later) u ∧ ¬ HandlersMatch u.events := by
  have hinit : (shims φ).Run (past ++ [(s, .module_init)]) s.module_init := hrun.call trivial rfl
  have hshutdown : (shims φ).Run (past ++ [(s, .module_init), (s.module_init, .module_shutdown)])
      s.module_init.module_shutdown := by
    simpa using hinit.call (i := .module_shutdown) trivial rfl
  refine ⟨_, _, hshutdown, fun hmatch => ?_⟩
  have hevents : s.module_init.module_shutdown.events =
      .shutdown (some handler) :: .init (inits s.events) :: s.events := by
    simp [Shims.module_init, Shims.module_shutdown, hdone, hslot]
  rw [hevents] at hmatch
  obtain ⟨during, hregistered⟩ := hmatch.last handler _ (List.suffix_refl _)
  simp at hregistered

/-- The slot is empty after a registration only if the handler was invoked, which the failure comes too
late for. -/
theorem not_handlersMatch_of_failed (hnumbered : Numbered s.running s.events) (hrecorded : Recorded s) {n : Nat}
    (hframe : .init n ∈ s.running) (hslot : s.EXIT_HANDLER = none) {handler : φ} {during : List Nat}
    (hmem : .exit handler during ∈ s.events) (hn : n ∈ during) : ¬ HandlersMatch (.failed n :: s.events) := by
  intro hmatch
  cases hregistered : registered s.events with
  | none => exact absurd (List.findSome?_eq_none_iff.mp hregistered _ hmem) (Option.some_ne_none _)
  | some x =>
    obtain ⟨f, d⟩ := x
    obtain ⟨older, hsplit⟩ := exists_exit hregistered
    have hd : n ∈ d := by
      obtain ⟨newer, before, hbefore⟩ := List.append_of_mem hmem
      have hsuffix : .exit handler during :: before <:+ s.events := ⟨newer, hbefore.symm⟩
      have hlt : n < inits before := (hnumbered.during handler during before hsuffix n hn).1
      have hmarked : (Event.exit handler during).registration? = some (handler, during) := rfl
      have holder : before <:+ older := History.suffix_of_marked hmarked hsuffix hsplit
      exact hnumbered.inside f d older ⟨_, hsplit.symm⟩ n hframe (hlt.trans_le (History.count_le_of_suffix holder))
    obtain ⟨g, hinvoked⟩ := hrecorded.cleared hslot _ hregistered
    obtain ⟨before, hbefore, -, hlast⟩ := History.exists_before_since hinvoked
    have hsuffix : .shutdown (some g) :: before <:+ .failed n :: s.events := hbefore.trans (List.suffix_cons ..)
    exact hmatch.failed g before hsuffix f d (hlast.trans hregistered) n hd (List.mem_cons_self ..)

/-- After a step that is troubled, if not at once, a handler can be invoked that does not match. -/
theorem InStep.exists_mismatch {past : List (Shims φ × Call φ)} (h : InStep s) (hrun : (shims φ).Run past s)
    {c : Call φ} (hcall : Call.run s c = some t) (hc : ¬ Untroubled s c) :
    ∃ later u, (shims φ).Run (past ++ (s, c) :: later) u ∧ ¬ HandlersMatch u.events := by
  cases c with
  | module_init =>
    obtain ⟨hdone, hslot⟩ := Classical.not_imp.mp hc
    obtain ⟨handler, hslot⟩ := Option.ne_none_iff_exists'.mp hslot
    exact exists_mismatch_of_left hrun hdone hslot
  | init_returns code =>
    simp only [Untroubled, not_forall, not_or, not_not] at hc
    obtain ⟨hcode, n, running, hrunning, -, handler, during, hmem, hn⟩ := hc
    have ht : t = { s with INIT_DONE := false, running := running, events := .failed n :: s.events } := by
      simpa [Call.run, Shims.module_init.returned, hrunning, hcode] using hcall.symm
    have hrun' : (shims φ).Run (past ++ [(s, .init_returns code)]) t := hrun.call trivial hcall
    subst ht
    cases hslot : s.EXIT_HANDLER with
    | none =>
      have hframe : .init n ∈ s.running := hrunning ▸ List.mem_cons_self ..
      exact ⟨[], _, hrun', not_handlersMatch_of_failed h.numbered h.recorded hframe hslot hmem hn⟩
    | some left =>
      obtain ⟨later, u, hlater, hmatch⟩ := exists_mismatch_of_left hrun' rfl hslot
      exact ⟨_, u, by simpa using hlater, hmatch⟩
  | module_exit _ => exact absurd trivial hc
  | module_shutdown => exact absurd trivial hc
  | exit_returns => exact absurd trivial hc

/-- In a run without troubled steps every handler is invoked as it was registered, in each of its states; and
after a troubled step there is a way on to a state in which one is not. -/
theorem untroubled_handlers_match {past : List (Shims φ × Call φ)} (hrun : (shims φ).Run past s)
    (h : ∀ p ∈ past, Untroubled p.1 p.2) :
    (HandlersMatch s.events ∧ ∀ p ∈ past, HandlersMatch p.1.events) ∧
      ∀ c t, Call.run s c = some t → ¬ Untroubled s c →
        ∃ later u, (shims φ).Run (past ++ (s, c) :: later) u ∧ ¬ HandlersMatch u.events := by
  have hthroughout : InStep s ∧ ∀ p ∈ past, InStep p.1 := by
    refine hrun.throughout_of_forall ?_ ?_ h
    · intro s hs
      cases hs
      exact inStep_initial
    · intro s c t hs hc hcall
      exact hs.step hc (step_of_run hcall)
  refine ⟨⟨hthroughout.1.handlersMatch, fun p hp => (hthroughout.2 p hp).handlersMatch⟩, ?_⟩
  intro c t hcall hc
  exact hthroughout.1.exists_mismatch hrun hcall hc

/-- A handler that is registered by the callback of an initialisation and invoked, and one whose
initialisation fails. -/
theorem invoked_then_failed : ∃ past s, (shims Nat).Run past s ∧ (∀ p ∈ past, Untroubled p.1 p.2) ∧
    s.events = [.failed 1, .exit 4 [1], .init 1, .shutdown (some 3), .exit 3 [0], .init 0] ∧
    HandlersMatch s.events := by
  have hrun : ∃ past s, (shims Nat).Run past s ∧ (∀ p ∈ past, Untroubled p.1 p.2) ∧
      s.events = [.failed 1, .exit 4 [1], .init 1, .shutdown (some 3), .exit 3 [0], .init 0] := by
    refine ⟨_, _, .call (i := .init_returns 1) (.call (i := .module_exit 4) (.call (i := .module_init)
      (.call (i := .exit_returns) (.call (i := .module_shutdown) (.call (i := .init_returns 0)
      (.call (i := .module_exit 3) (.call (i := .module_init) (.start rfl) trivial rfl) trivial rfl)
      trivial rfl) trivial rfl) trivial rfl) trivial rfl) trivial rfl) trivial rfl, ?_, rfl⟩
    simp [Untroubled, StillLive, Shims.module_init, Shims.module_exit, Shims.module_shutdown]
  obtain ⟨past, s, hrun, hpast, hevents⟩ := hrun
  exact ⟨past, s, hrun, hpast, hevents, (untroubled_handlers_match hrun hpast).1.1⟩

/-- The handler of an initialisation that failed is invoked for the next one. -/
theorem failed_handler_invoked : ¬ ∀ (past : List (Shims Nat × Call Nat)) (s : Shims Nat),
    (shims Nat).Run past s → HandlersMatch s.events := by
  intro h
  have hmatch : HandlersMatch ([.shutdown (some 3), .init 1, .failed 0, .exit 3 [0], .init 0] : List (Event Nat)) :=
    h _ _ (.call (i := .module_shutdown) (.call (i := .init_returns 0) (.call (i := .module_init)
      (.call (i := .init_returns 1) (.call (i := .module_exit 3) (.call (i := .module_init) (.start rfl)
      trivial rfl) trivial rfl) trivial rfl) trivial rfl) trivial rfl) trivial rfl)
  exact hmatch.failed 3 _ (List.suffix_refl _) 3 [0] rfl 0 (by simp) (by simp)

end linux_shims
