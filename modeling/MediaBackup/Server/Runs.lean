import MediaBackup.Server.ReconcileSpec
import MediaBackup.Server.Valid

/-!
# Runs of the server

What the steps of the calls grant each other, put together for a whole pool: an invariant that
every step keeps on its grounds holds along every run, and the answers of the calls are true.
-/

namespace MediaBackup

variable [Blake3]

/-- A server some run of some requests can reach from an empty one. -/
def Reachable (config : Config) (s : Server) : Prop :=
  ∃ (s₀ : Server) (events : List ServerEvent), s₀.Fresh ∧
    s = ((machine config).run s₀.idle events).state

/-- A world in which nobody is promised to be alone. -/
def World.crowd (inv : Server → Prop) (may : Choice → Prop) (allowed : Site → Server → Prop)
    (shares : Site → Kind → Server → Prop) (does : Kind → Prop) (hvalid : ∀ s, inv s → s.Valid) :
    World where
  inv := inv
  may := may
  allowed := allowed
  shares := shares
  does := does
  live _ := False
  alone _ h := h.elim
  drawn s hi := (hvalid s hi).drawn
  finals s hi id r key hr hkey := (((hvalid s hi).fits id r hr).final key hkey).isObject
  blobs s hi id b hb := ((hvalid s hi).blobKey id b hb).isObject

/-- The steps of the runs that satisfy `C` keep to the world, and what the answers say can be
weakened to `Q`, which lasts. -/
structure World.Governs (W : World) (C : ServerPool → ServerEvent → Prop)
    (Q : Request → Nat → Answer → Server → Prop) : Prop where
  crowded : ∀ t, ¬W.live t
  serves : ∀ p c, C p (.start c) → W.Serves c
  may : ∀ p t e c site, C p (.step t e) → p.pending t = some (c, site) →
    W.may e ∧ W.allowed site p.state
  step : ∀ p t e c site k s', W.inv p.state → C p (.step t e) → p.pending t = some (c, site) →
    Change t site k p.state s' → Grounds W t k p.state →
      W.inv s' ∧ ∀ t' c' site', t' ≠ t → p.pending t' = some (c', site') → W.shares site' k p.state
  reboot : ∀ s, W.inv s → W.inv s.reboot
  answered : ∀ c t a s, Answered W t c a s → Q c t a s
  keeps : ∀ c t a t' site k s s', W.inv s → Change t' site k s s' → Grounds W t' k s →
    Q c t a s → Q c t a s'
  restarts : ∀ c t a s, W.inv s → Q c t a s → Q c t a s.reboot

namespace World.Governs

variable {W : World} {C : ServerPool → ServerEvent → Prop}
  {Q : Request → Nat → Answer → Server → Prop} {config : Config} {p : ServerPool}

/-- One event. -/
theorem next (h : W.Governs C Q) (hp : Sound W.context W.inv Q p) {ev : ServerEvent}
    (hC : C p ev) : Sound W.context W.inv Q ((machine config).next p ev) := by
  have hinv : ∀ t s, (W.context t).inv s ↔ W.inv s := fun _ _ => Iff.rfl
  refine Sound.next (K := W.context) (C := C) hinv ?_ h.may ?_ ?_ hp hC
  · intro p c hi hC
    have hidle : Idle W p.threads.length p.state := fun hl => absurd hl (h.crowded _)
    refine (handle_spec config (h.serves p c hC) p.state hidle).mono ?_
    rintro (e | r) s ⟨-, ha⟩
    · exact h.answered _ _ _ _ ha
    · exact h.answered _ _ _ _ ha
  · rintro p t e c site s' hp hC hpend ⟨k, hc, hg⟩
    obtain ⟨hi', hshares⟩ := h.step p t e c site k s' hp.inv hC hpend hc hg
    refine ⟨hi', fun t' c' site' hne hpend' => ?_, fun t' c' a _ hq => ?_⟩
    · exact ⟨t, hne.symm, site, k, hc, hshares t' c' site' hne hpend'⟩
    · exact h.keeps c' t' a t site k p.state s' hp.inv hc hg hq
  · intro p hp _
    exact ⟨h.reboot p.state hp.inv, fun t c a _ hq => h.restarts c t a p.state hp.inv hq⟩

/-- A whole run. -/
theorem run (h : W.Governs C Q) (hp : Sound W.context W.inv Q p) {events : List ServerEvent}
    (hC : (machine config).Along C p events) :
    Sound W.context W.inv Q ((machine config).run p events) :=
  Machine.run_induction (machine config) (P := Sound W.context W.inv Q)
    (fun _ _ hp hC => h.next hp hC) hp hC

/-- A pool in which nothing has started. -/
theorem idle {s : Server} (hi : W.inv s) : Sound W.context W.inv Q s.idle :=
  ⟨hi, fun t c q hq => by simp [Server.idle] at hq⟩

/-- What one event of a run does. -/
theorem moves (h : W.Governs C Q) (config : Config) (hp : Sound W.context W.inv Q p)
    (ev : ServerEvent) (hC : C p ev) :
    ((machine config).next p ev).state = p.state ∨
      (∃ t e c site k, ev = .step t e ∧ p.pending t = some (c, site) ∧
        Change t site k p.state ((machine config).next p ev).state ∧ Grounds W t k p.state) ∨
      ev = .crash ∧ ((machine config).next p ev).state = p.state.reboot := by
  have hinv : ∀ t s, (W.context t).inv s ↔ W.inv s := fun _ _ => Iff.rfl
  rcases Sound.moves (M := machine config) (K := W.context) hinv h.may hp hC with
    hsame | ⟨t, e, c, site, hev, hpend, k, hc, hg⟩ | hcrash
  · exact .inl hsame
  · exact .inr (.inl ⟨t, e, c, site, k, hev, hpend, hc, hg⟩)
  · exact .inr (.inr hcrash)

/-- What every step keeps may be used at every event of a run. -/
theorem along (h : W.Governs C Q) (hp : Sound W.context W.inv Q p) {events : List ServerEvent}
    (hC : (machine config).Along C p events) {ok : ServerPool → ServerEvent → Prop}
    (hok : ∀ p ev, Sound W.context W.inv Q p → C p ev → ok p ev) :
    (machine config).Along ok p events :=
  Machine.Along.of_invariant (machine config) (P := Sound W.context W.inv Q)
    (fun _ _ hp hC => h.next hp hC) hok hp hC

end World.Governs

/-! ## Valid rows -/

/-- The world in which anything may be asked for. -/
def World.any : World :=
  .crowd Server.Valid (fun _ => True) (fun _ _ => True) (fun _ _ _ => True) (fun _ => True)
    fun _ h => h

omit [Blake3] in
theorem World.any_serves (c : Request) : World.any.Serves c := by
  cases c <;> simp [World.Serves, World.any, World.crowd]

theorem World.any_governs :
    World.any.Governs (fun _ _ => True) fun _ _ _ _ => True where
  crowded _ h := h
  serves _ c _ := World.any_serves c
  may _ _ _ _ _ _ _ := ⟨trivial, trivial⟩
  step _ _ _ _ _ _ _ hi _ _ hc _ := ⟨hc.valid hi, fun _ _ _ _ _ => trivial⟩
  reboot _ hi := Server.Valid.reboot hi
  answered _ _ _ _ _ := trivial
  keeps _ _ _ _ _ _ _ _ _ _ _ _ := trivial
  restarts _ _ _ _ _ _ := trivial

/-- The rows of every server that can be reached are valid. -/
theorem Reachable.valid {config : Config} {s : Server} (h : Reachable config s) : s.Valid := by
  obtain ⟨s₀, events, hfresh, rfl⟩ := h
  exact (World.any_governs.run (World.Governs.idle hfresh.valid)
    ((machine config).along_true _ events)).inv

end MediaBackup
