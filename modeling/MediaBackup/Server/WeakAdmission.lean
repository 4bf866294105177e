import MediaBackup.Framework.Holders
import MediaBackup.Protocol

/-!
# The weak entries of upload admission

The map of `UploadAdmission` does not keep an account's semaphore alive: the requests do, each by
the `Arc` that it got in `acquire`. Here the semaphores stand apart from the map, a request lets go
of its permits and of its `Arc` one by one, and the map is cleaned between any two of these steps.
-/

namespace MediaBackup

/-- A request from `acquire` on. It has left when its `UploadPermit` is dropped, when it is
cancelled and when its time is up; what it has then is dropped step by step. -/
structure UploadTicket where
  account : Uuid
  arc : Option Nat
  globalPermit : Hold
  accountPermit : Hold
  leaving : Bool
  deriving DecidableEq

namespace UploadTicket

/-- What the request has of one semaphore of an account. -/
def holdOf (arc : Nat) (q : UploadTicket) : Hold :=
  if q.arc = some arc then q.accountPermit else .absent

/-- It has its `UploadPermit`. -/
def isLive (q : UploadTicket) : Bool :=
  q.globalPermit = .held ∧ q.accountPermit = .held ∧ q.leaving = false

def grantGlobal (q : UploadTicket) : UploadTicket := { q with globalPermit := .held }

def grantAccount (q : UploadTicket) : UploadTicket := { q with accountPermit := .held }

end UploadTicket

/-- `UploadAdmission`: `accounts` are the weak pointers, `semaphores` is what they point to. -/
structure WeakAdmission where
  globalPermits : Semaphore
  perAccountLimit : Nat
  accounts : Table Uuid Nat
  semaphores : Table Nat Semaphore
  allocated : Nat
  requests : Table Nat UploadTicket

/-- What the requests do, and the steps of `acquire` before it waits. -/
inductive WeakEvent
  | retain (account : Uuid)
  | enter (request : Nat) (account : Uuid)
  | acquireGlobal (request : Nat)
  | acquireAccount (request : Nat)
  | leave (request : Nat)
  | dropGlobal (request : Nat)
  | dropAccount (request : Nat)
  | dropArc (request : Nat)
  deriving DecidableEq

namespace WeakAdmission

def new (globalLimit perAccountLimit : Nat) : WeakAdmission :=
  ⟨.new globalLimit, perAccountLimit, ∅, ∅, 0, ∅⟩

def strongCount (s : WeakAdmission) (arc : Nat) : Nat :=
  (s.requests.keysWhere fun q => q.arc = some arc).card

/-- `Weak::upgrade`. -/
def upgrade (s : WeakAdmission) (arc : Nat) : Option Nat :=
  if 0 < s.strongCount arc then some arc else none

/-- What `retain` does with the entry of one account. -/
def retain (s : WeakAdmission) (account : Uuid) : WeakAdmission :=
  match s.accounts.lookup account with
  | some arc =>
      if 0 < s.strongCount arc then s else { s with accounts := s.accounts.erase account }
  | none => s

/-- The account's semaphore, or a new one. -/
def accountSemaphore (s : WeakAdmission) (account : Uuid) : Nat × WeakAdmission :=
  match (s.accounts.lookup account).bind s.upgrade with
  | some arc => (arc, s)
  | none =>
      (s.allocated, { s with
        accounts := s.accounts.insert account s.allocated
        semaphores := s.semaphores.insert s.allocated (.new s.perAccountLimit)
        allocated := s.allocated + 1 })

/-- `acquire`, up to where it waits. -/
def enter (s : WeakAdmission) (request : Nat) (account : Uuid) : WeakAdmission :=
  let (arc, s) := s.accountSemaphore account
  { s with requests := s.requests.insert request ⟨account, some arc, .absent, .absent, false⟩ }

def acquireGlobal (s : WeakAdmission) (request : Nat) (q : UploadTicket) : WeakAdmission :=
  let (got, globalPermits) := s.globalPermits.acquire request
  { s with
    globalPermits := globalPermits
    requests := s.requests.insert request { q with globalPermit := .asked got } }

def acquireAccount (s : WeakAdmission) (request : Nat) (q : UploadTicket) (arc : Nat)
    (sem : Semaphore) : WeakAdmission :=
  let (got, sem) := sem.acquire request
  { s with
    semaphores := s.semaphores.insert arc sem
    requests := s.requests.insert request { q with accountPermit := .asked got } }

def dropGlobal (s : WeakAdmission) (request : Nat) (q : UploadTicket) : WeakAdmission :=
  let requests := s.requests.insert request { q with globalPermit := .absent }
  match q.globalPermit with
  | .absent => s
  | .waiting => { s with globalPermits := s.globalPermits.cancel request, requests := requests }
  | .held =>
      let (next, globalPermits) := s.globalPermits.release
      { s with
        globalPermits := globalPermits
        requests := handOver requests next UploadTicket.grantGlobal }

def dropAccount (s : WeakAdmission) (request : Nat) (q : UploadTicket) (arc : Nat)
    (sem : Semaphore) : WeakAdmission :=
  let requests := s.requests.insert request { q with accountPermit := .absent }
  match q.accountPermit with
  | .absent => s
  | .waiting =>
      { s with semaphores := s.semaphores.insert arc (sem.cancel request), requests := requests }
  | .held =>
      let (next, sem) := sem.release
      { s with
        semaphores := s.semaphores.insert arc sem
        requests := handOver requests next UploadTicket.grantAccount }

/-- The step at the request's own semaphore. -/
def atArc (s : WeakAdmission) (q : UploadTicket)
    (f : Nat → Semaphore → WeakAdmission) : WeakAdmission :=
  match q.arc with
  | none => s
  | some arc =>
      match s.semaphores.lookup arc with
      | none => s
      | some sem => f arc sem

/-- One event; those that do not fit the state are without effect. -/
def step (s : WeakAdmission) : WeakEvent → WeakAdmission
  | .retain account => s.retain account
  | .enter request account =>
      if (s.requests.lookup request).isSome then s else s.enter request account
  | .acquireGlobal request =>
      match s.requests.lookup request with
      | some q =>
          if q.leaving = false ∧ q.globalPermit = .absent then s.acquireGlobal request q else s
      | none => s
  | .acquireAccount request =>
      match s.requests.lookup request with
      | some q =>
          if q.leaving = false ∧ q.globalPermit = .held ∧ q.accountPermit = .absent then
            s.atArc q (s.acquireAccount request q)
          else s
      | none => s
  | .leave request =>
      { s with requests := s.requests.modify request fun q => { q with leaving := true } }
  | .dropGlobal request =>
      match s.requests.lookup request with
      | some q => if q.leaving = true then s.dropGlobal request q else s
      | none => s
  | .dropAccount request =>
      match s.requests.lookup request with
      | some q => if q.leaving = true then s.atArc q (s.dropAccount request q) else s
      | none => s
  | .dropArc request =>
      match s.requests.lookup request with
      | some q =>
          if q.leaving = true ∧ q.accountPermit = .absent then
            { s with requests := s.requests.insert request { q with arc := none } }
          else s
      | none => s

def run (s : WeakAdmission) (events : List WeakEvent) : WeakAdmission := events.foldl step s

/-- The live `UploadPermit`s. -/
def livePermits (s : WeakAdmission) : Finset Nat := s.requests.keysWhere UploadTicket.isLive

def livePermitsOf (s : WeakAdmission) (account : Uuid) : Finset Nat :=
  s.requests.keysWhere fun q => q.account = account ∧ q.isLive

/-! ## The invariant -/

/-- The `Arc` of a request is the one that the map has for its account, and only a request that has
one can hold or wait for a permit of the account. -/
structure Placed (accounts : Table Uuid Nat) (q : UploadTicket) : Prop where
  pointed : ∀ arc, q.arc = some arc → accounts.lookup q.account = some arc
  attached : q.arc = none → q.accountPermit = .absent

/-- Every semaphore that was ever made serves the requests that have its `Arc`. -/
structure Sound (globalLimit : Nat) (s : WeakAdmission) : Prop where
  global : s.globalPermits.ServesHolds globalLimit s.requests UploadTicket.globalPermit
  serves : ∀ arc sem, s.semaphores.lookup arc = some sem →
    sem.ServesHolds s.perAccountLimit s.requests (UploadTicket.holdOf arc)
  placed : ∀ r q, s.requests.lookup r = some q → Placed s.accounts q
  made : ∀ account arc, s.accounts.lookup account = some arc →
    ∃ sem, s.semaphores.lookup arc = some sem
  numbered : ∀ arc sem, s.semaphores.lookup arc = some sem → arc < s.allocated
  unshared : ∀ account other arc, s.accounts.lookup account = some arc →
    s.accounts.lookup other = some arc → account = other

variable {s : WeakAdmission} {globalLimit r : Nat} {q q' : UploadTicket}

theorem Placed.of_same {accounts : Table Uuid Nat} (h : Placed accounts q)
    (haccount : q'.account = q.account) (harc : q'.arc = q.arc)
    (hpermit : q'.arc = none → q'.accountPermit = .absent) : Placed accounts q' where
  pointed arc hq' := by
    rw [haccount]
    exact h.pointed arc (harc ▸ hq')
  attached := hpermit

theorem new_sound (globalLimit perAccountLimit : Nat) :
    (new globalLimit perAccountLimit).Sound globalLimit where
  global := .new globalLimit fun r q hq => by simp [new] at hq
  serves arc sem hsem := by simp [new] at hsem
  placed r q hq := by simp [new] at hq
  made account arc harc := by simp [new] at harc
  numbered arc sem hsem := by simp [new] at hsem
  unshared account other arc harc := by simp [new] at harc

/-- An `Arc` that a request has is counted. -/
theorem strongCount_pos {arc : Nat} (hq : s.requests.lookup r = some q) (harc : q.arc = some arc) :
    0 < s.strongCount arc := by
  unfold strongCount
  rw [Finset.card_pos]
  exact ⟨r, Table.mem_keysWhere.mpr ⟨q, hq, by simp [harc]⟩⟩

theorem forall_insert {requests : Table Nat UploadTicket} {P : UploadTicket → Prop}
    (h : ∀ r q, requests.lookup r = some q → P q) (hq : P q) :
    ∀ r' q', (requests.insert r q).lookup r' = some q' → P q' := by
  intro r' q' hq'
  rw [Table.lookup_insert_eq] at hq'
  by_cases heq : r' = r
  · rw [if_pos heq] at hq'
    cases hq'
    exact hq
  · rw [if_neg heq] at hq'
    exact h r' q' hq'

/-! ## The map -/

/-- No request has an `Arc` of the account that the map has lost. -/
theorem retain_sound (h : s.Sound globalLimit) (account : Uuid) :
    (s.retain account).Sound globalLimit := by
  unfold retain
  cases hentry : s.accounts.lookup account with
  | none => exact h
  | some arc =>
    by_cases hcount : 0 < s.strongCount arc
    · simpa [hcount] using h
    · simp only [hcount, if_false]
      refine ⟨h.global, h.serves, fun r q hq => ⟨fun arc' harc' => ?_, (h.placed r q hq).attached⟩,
        fun other arc' harc' => ?_, h.numbered, fun one other arc' hone hother => ?_⟩
      · have hpointed := (h.placed r q hq).pointed arc' harc'
        have hne : q.account ≠ account := by
          intro heq
          rw [heq, hentry] at hpointed
          cases hpointed
          exact hcount (strongCount_pos hq harc')
        change (s.accounts.erase account).lookup q.account = some arc'
        rw [Table.lookup_erase_eq, if_neg hne, hpointed]
      · change (s.accounts.erase account).lookup other = some arc' at harc'
        rw [Table.lookup_erase_eq] at harc'
        by_cases heq : other = account
        · simp [heq] at harc'
        · rw [if_neg heq] at harc'
          exact h.made other arc' harc'
      · change (s.accounts.erase account).lookup one = some arc' at hone
        change (s.accounts.erase account).lookup other = some arc' at hother
        rw [Table.lookup_erase_eq] at hone hother
        by_cases heq : one = account ∨ other = account
        · rcases heq with heq | heq
          · simp [heq] at hone
          · simp [heq] at hother
        · rw [not_or] at heq
          rw [if_neg heq.1] at hone
          rw [if_neg heq.2] at hother
          exact h.unshared one other arc' hone hother

/-- The semaphore of the account is in the map, and the other requests have not lost theirs. -/
theorem accountSemaphore_sound (h : s.Sound globalLimit) (account : Uuid) :
    (s.accountSemaphore account).2.Sound globalLimit ∧
      (s.accountSemaphore account).2.accounts.lookup account =
        some (s.accountSemaphore account).1 ∧
      (s.accountSemaphore account).2.requests = s.requests := by
  unfold accountSemaphore
  cases hfound : (s.accounts.lookup account).bind s.upgrade with
  | some arc =>
    obtain ⟨arc', hentry, hupgrade⟩ := Option.bind_eq_some_iff.mp hfound
    have hsame : arc' = arc := by
      unfold upgrade at hupgrade
      by_cases hcount : 0 < s.strongCount arc'
      · simpa [hcount] using hupgrade
      · simp [hcount] at hupgrade
    rw [hsame] at hentry
    exact ⟨h, hentry, rfl⟩
  | none =>
    dsimp only
    have hgone : ∀ r q, s.requests.lookup r = some q → q.account = account → q.arc = none := by
      intro r q hq haccount
      cases harc : q.arc with
      | none => rfl
      | some arc =>
        have hentry := (h.placed r q hq).pointed arc harc
        rw [haccount] at hentry
        have hcount := strongCount_pos hq harc
        simp [hentry, upgrade, hcount] at hfound
    have hfresh : ∀ other, s.accounts.lookup other ≠ some s.allocated := by
      intro other hother
      obtain ⟨sem, hsem⟩ := h.made _ _ hother
      exact absurd (h.numbered _ sem hsem) (lt_irrefl _)
    have hnew : ∀ r q, s.requests.lookup r = some q → q.arc ≠ some s.allocated :=
      fun r q hq harc => hfresh _ ((h.placed r q hq).pointed _ harc)
    refine ⟨⟨h.global, fun arc sem hsem => ?_,
      fun r q hq => ⟨fun arc harc => ?_, (h.placed r q hq).attached⟩, fun other arc harc => ?_,
      fun arc sem hsem => ?_, fun one other arc hone hother => ?_⟩, ?_, rfl⟩
    · rw [Table.lookup_insert_eq] at hsem
      by_cases heq : arc = s.allocated
      · rw [if_pos heq] at hsem
        cases hsem
        apply Semaphore.ServesHolds.new
        intro r q hq
        rw [UploadTicket.holdOf, heq, if_neg (hnew r q hq)]
      · rw [if_neg heq] at hsem
        exact h.serves arc sem hsem
    · have hne : q.account ≠ account := by
        intro heq
        rw [hgone r q hq heq] at harc
        cases harc
      rw [Table.lookup_insert_eq, if_neg hne]
      exact (h.placed r q hq).pointed arc harc
    · rw [Table.lookup_insert_eq]
      rw [Table.lookup_insert_eq] at harc
      by_cases heq : arc = s.allocated
      · exact ⟨_, if_pos heq⟩
      · rw [if_neg heq]
        by_cases hother : other = account
        · rw [if_pos hother] at harc
          cases harc
          exact absurd rfl heq
        · rw [if_neg hother] at harc
          exact h.made other arc harc
    · rw [Table.lookup_insert_eq] at hsem
      by_cases heq : arc = s.allocated
      · rw [heq]
        exact Nat.lt_succ_self _
      · rw [if_neg heq] at hsem
        exact Nat.lt_succ_of_lt (h.numbered arc sem hsem)
    · rw [Table.lookup_insert_eq] at hone hother
      by_cases hone' : one = account
      · by_cases hother' : other = account
        · rw [hone', hother']
        · rw [if_pos hone'] at hone
          rw [if_neg hother'] at hother
          cases hone
          exact absurd hother (hfresh other)
      · by_cases hother' : other = account
        · rw [if_neg hone'] at hone
          rw [if_pos hother'] at hother
          cases hother
          exact absurd hone (hfresh one)
        · rw [if_neg hone'] at hone
          rw [if_neg hother'] at hother
          exact h.unshared one other arc hone hother
    · rw [Table.lookup_insert_eq, if_pos rfl]

theorem enter_sound (h : s.Sound globalLimit) (hr : s.requests.lookup r = none)
    (account : Uuid) : (s.enter r account).Sound globalLimit := by
  obtain ⟨hsound, hentry, hrequests⟩ := accountSemaphore_sound h account
  unfold enter
  generalize s.accountSemaphore account = found at hsound hentry hrequests
  obtain ⟨arc, s'⟩ := found
  dsimp only at hsound hentry hrequests ⊢
  rw [← hrequests] at hr
  refine ⟨hsound.global.entered hr rfl, fun arc' sem hsem => ?_, ?_, hsound.made,
    hsound.numbered, hsound.unshared⟩
  · apply (hsound.serves arc' sem hsem).entered hr
    unfold UploadTicket.holdOf
    split <;> rfl
  · apply forall_insert hsound.placed
    refine ⟨fun arc' harc' => ?_, fun _ => rfl⟩
    cases harc'
    exact hentry

/-! ## The permits -/

theorem acquireGlobal_sound (h : s.Sound globalLimit) (hq : s.requests.lookup r = some q)
    (habsent : q.globalPermit = .absent) : (s.acquireGlobal r q).Sound globalLimit where
  global := h.global.acquire hq habsent rfl
  serves arc sem hsem := (h.serves arc sem hsem).same hq rfl
  placed := forall_insert h.placed
    ((h.placed r q hq).of_same rfl rfl (h.placed r q hq).attached)
  made := h.made
  numbered := h.numbered
  unshared := h.unshared

/-- The step of a request at its own semaphore. -/
theorem atArc_sound (h : s.Sound globalLimit) {f : Nat → Semaphore → WeakAdmission}
    (hf : ∀ arc sem, q.arc = some arc → s.semaphores.lookup arc = some sem →
      (f arc sem).Sound globalLimit) : (s.atArc q f).Sound globalLimit := by
  unfold atArc
  cases harc : q.arc with
  | none => exact h
  | some arc =>
    cases hsem : s.semaphores.lookup arc with
    | none => simpa [hsem] using h
    | some sem => simpa [hsem] using hf arc sem harc hsem

theorem holdOf_self {arc : Nat} (harc : q.arc = some arc) : q.holdOf arc = q.accountPermit :=
  if_pos harc

theorem holdOf_other {arc arc' : Nat} (harc : q.arc = some arc) (hne : arc' ≠ arc) :
    q.holdOf arc' = .absent := by
  unfold UploadTicket.holdOf
  rw [harc, if_neg fun heq => hne (Option.some.inj heq).symm]

/-- A semaphore changes, and with it what the requests have of it. -/
theorem sound_of_semaphore (h : s.Sound globalLimit) {arc : Nat} {sem sem' : Semaphore}
    {requests : Table Nat UploadTicket} (hsem : s.semaphores.lookup arc = some sem)
    (hglobal : s.globalPermits.ServesHolds globalLimit requests UploadTicket.globalPermit)
    (hserves : sem'.ServesHolds s.perAccountLimit requests (UploadTicket.holdOf arc))
    (hothers : ∀ arc' other, arc' ≠ arc → s.semaphores.lookup arc' = some other →
      other.ServesHolds s.perAccountLimit requests (UploadTicket.holdOf arc'))
    (hplaced : ∀ r q, requests.lookup r = some q → Placed s.accounts q) :
    Sound globalLimit
      { s with semaphores := s.semaphores.insert arc sem', requests := requests } where
  global := hglobal
  serves arc' other hother := by
    change (s.semaphores.insert arc sem').lookup arc' = some other at hother
    rw [Table.lookup_insert_eq] at hother
    by_cases heq : arc' = arc
    · rw [if_pos heq] at hother
      cases hother
      rw [heq]
      exact hserves
    · rw [if_neg heq] at hother
      exact hothers arc' other heq hother
  placed := hplaced
  made account arc' harc' := by
    obtain ⟨other, hother⟩ := h.made account arc' harc'
    change ∃ sem, (s.semaphores.insert arc sem').lookup arc' = some sem
    rw [Table.lookup_insert_eq]
    by_cases heq : arc' = arc
    · exact ⟨sem', if_pos heq⟩
    · exact ⟨other, by rw [if_neg heq, hother]⟩
  numbered arc' other hother := by
    change (s.semaphores.insert arc sem').lookup arc' = some other at hother
    rw [Table.lookup_insert_eq] at hother
    by_cases heq : arc' = arc
    · rw [heq]
      exact h.numbered arc sem hsem
    · rw [if_neg heq] at hother
      exact h.numbered arc' other hother
  unshared := h.unshared

theorem acquireAccount_sound (h : s.Sound globalLimit) (hq : s.requests.lookup r = some q)
    (habsent : q.accountPermit = .absent) {arc : Nat} {sem : Semaphore}
    (harc : q.arc = some arc) (hsem : s.semaphores.lookup arc = some sem) :
    (s.acquireAccount r q arc sem).Sound globalLimit := by
  have hserves := h.serves arc sem hsem
  have hself := holdOf_self harc
  have hstate : s.acquireAccount r q arc sem =
      { s with
        semaphores := s.semaphores.insert arc (sem.acquire r).2
        requests := s.requests.insert r { q with accountPermit := .asked (sem.acquire r).1 } } :=
    rfl
  rw [hstate]
  apply sound_of_semaphore h hsem
  · exact h.global.same hq rfl
  · apply hserves.acquire hq (hself.trans habsent)
    exact holdOf_self harc
  · intro arc' other hne hother
    apply (h.serves arc' other hother).same hq
    rw [holdOf_other harc hne]
    exact holdOf_other harc hne
  · apply forall_insert h.placed
    refine (h.placed r q hq).of_same rfl rfl fun hnone => ?_
    rw [show q.arc = none from hnone] at harc
    cases harc

theorem dropGlobal_sound (h : s.Sound globalLimit) (hq : s.requests.lookup r = some q) :
    (s.dropGlobal r q).Sound globalLimit := by
  have hplaced : ∀ r' q', (s.requests.insert r { q with globalPermit := .absent }).lookup r' =
      some q' → Placed s.accounts q' :=
    forall_insert h.placed ((h.placed r q hq).of_same rfl rfl (h.placed r q hq).attached)
  have hserves : ∀ arc sem, s.semaphores.lookup arc = some sem →
      sem.ServesHolds s.perAccountLimit (s.requests.insert r { q with globalPermit := .absent })
        (UploadTicket.holdOf arc) :=
    fun arc sem hsem => (h.serves arc sem hsem).same hq rfl
  unfold dropGlobal
  cases hpermit : q.globalPermit with
  | absent => exact h
  | waiting => exact ⟨h.global.cancel hq hpermit rfl, hserves, hplaced, h.made, h.numbered,
      h.unshared⟩
  | held =>
    refine ⟨h.global.release hq hpermit rfl fun _ _ => rfl, fun arc sem hsem => ?_, ?_, h.made,
      h.numbered, h.unshared⟩
    · exact (hserves arc sem hsem).handOver _ fun _ _ _ _ => rfl
    · apply forall_handOver _ hplaced
      intro r' q' _ hq'
      exact (hplaced r' q' hq').of_same rfl rfl (hplaced r' q' hq').attached

theorem dropAccount_sound (h : s.Sound globalLimit) (hq : s.requests.lookup r = some q)
    {arc : Nat} {sem : Semaphore} (harc : q.arc = some arc)
    (hsem : s.semaphores.lookup arc = some sem) :
    (s.dropAccount r q arc sem).Sound globalLimit := by
  have hview := h.serves arc sem hsem
  have hself := holdOf_self harc
  have hplaced : ∀ r' q', (s.requests.insert r { q with accountPermit := .absent }).lookup r' =
      some q' → Placed s.accounts q' :=
    forall_insert h.placed ((h.placed r q hq).of_same rfl rfl fun _ => rfl)
  have hglobal : s.globalPermits.ServesHolds globalLimit
      (s.requests.insert r { q with accountPermit := .absent }) UploadTicket.globalPermit :=
    h.global.same hq rfl
  have hothers : ∀ arc' other, arc' ≠ arc → s.semaphores.lookup arc' = some other →
      other.ServesHolds s.perAccountLimit (s.requests.insert r { q with accountPermit := .absent })
        (UploadTicket.holdOf arc') := by
    intro arc' other hne hother
    apply (h.serves arc' other hother).same hq
    rw [holdOf_other harc hne]
    exact holdOf_other harc hne
  have hdropped : UploadTicket.holdOf arc { q with accountPermit := .absent } = .absent := by
    unfold UploadTicket.holdOf
    split <;> rfl
  unfold dropAccount
  cases hpermit : q.accountPermit with
  | absent => exact h
  | waiting =>
    apply sound_of_semaphore h hsem hglobal _ hothers hplaced
    exact hview.cancel hq (hself.trans hpermit) hdropped
  | held =>
    have hfirst : ∀ r' n, sem.release.1 = some r' →
        (s.requests.insert r { q with accountPermit := .absent }).lookup r' = some n →
          n.arc = some arc := by
      intro r' n hnext hn
      obtain ⟨n', hn', hwaits⟩ := hview.release_next hnext
      have hne : r' ≠ r := by
        intro heq
        rw [heq, hq] at hn'
        cases hn'
        rw [hself, hpermit] at hwaits
        cases hwaits
      rw [Table.lookup_insert_eq, if_neg hne, hn'] at hn
      cases hn
      by_contra hother
      rw [UploadTicket.holdOf, if_neg hother] at hwaits
      cases hwaits
    apply sound_of_semaphore h hsem
    · exact hglobal.handOver _ fun _ _ _ _ => rfl
    · apply hview.release hq (hself.trans hpermit) hdropped
      intro n hwaits
      have harc : n.arc = some arc := by
        by_contra hother
        rw [UploadTicket.holdOf, if_neg hother] at hwaits
        cases hwaits
      exact holdOf_self harc
    · intro arc' other hne hother
      apply (hothers arc' other hne hother).handOver
      intro r' n hnext hn
      have harc := hfirst r' n hnext hn
      rw [holdOf_other harc hne]
      exact holdOf_other harc hne
    · apply forall_handOver _ hplaced
      intro r' n hnext hn
      refine (hplaced r' n hn).of_same rfl rfl fun hnone => ?_
      have harc := hfirst r' n hnext hn
      rw [show n.arc = none from hnone] at harc
      cases harc

theorem dropArc_sound (h : s.Sound globalLimit) (hq : s.requests.lookup r = some q)
    (habsent : q.accountPermit = .absent) :
    Sound globalLimit { s with requests := s.requests.insert r { q with arc := none } } where
  global := h.global.same hq rfl
  serves arc sem hsem := by
    apply (h.serves arc sem hsem).same hq
    unfold UploadTicket.holdOf
    rw [if_neg (by simp), habsent]
    split <;> rfl
  placed := forall_insert h.placed ⟨fun arc harc => by simp at harc, fun _ => habsent⟩
  made := h.made
  numbered := h.numbered
  unshared := h.unshared

theorem leave_sound (h : s.Sound globalLimit) (r : Nat) :
    (s.step (.leave r)).Sound globalLimit := by
  cases hq : s.requests.lookup r with
  | none => simpa [step, Table.modify, hq] using h
  | some q =>
    have hstep : s.step (.leave r) =
        { s with requests := s.requests.insert r { q with leaving := true } } := by
      simp [step, Table.modify, hq]
    rw [hstep]
    refine ⟨h.global.same hq rfl, fun arc sem hsem => (h.serves arc sem hsem).same hq rfl, ?_,
      h.made, h.numbered, h.unshared⟩
    exact forall_insert h.placed ((h.placed r q hq).of_same rfl rfl (h.placed r q hq).attached)

theorem step_sound (h : s.Sound globalLimit) (ev : WeakEvent) : (s.step ev).Sound globalLimit := by
  cases ev with
  | retain account => exact retain_sound h account
  | enter r account =>
    by_cases hsome : (s.requests.lookup r).isSome
    · simpa [step, hsome] using h
    · have hnone : s.requests.lookup r = none := by simpa using hsome
      simpa [step, hnone] using enter_sound h hnone account
  | acquireGlobal r =>
    cases hq : s.requests.lookup r with
    | none => simpa [step, hq] using h
    | some q =>
      simp only [step, hq]
      split
      · rename_i hguard
        exact acquireGlobal_sound h hq hguard.2
      · exact h
  | acquireAccount r =>
    cases hq : s.requests.lookup r with
    | none => simpa [step, hq] using h
    | some q =>
      simp only [step, hq]
      split
      · rename_i hguard
        exact atArc_sound h fun arc sem harc hsem =>
          acquireAccount_sound h hq hguard.2.2 harc hsem
      · exact h
  | leave r => exact leave_sound h r
  | dropGlobal r =>
    cases hq : s.requests.lookup r with
    | none => simpa [step, hq] using h
    | some q =>
      simp only [step, hq]
      split
      · exact dropGlobal_sound h hq
      · exact h
  | dropAccount r =>
    cases hq : s.requests.lookup r with
    | none => simpa [step, hq] using h
    | some q =>
      simp only [step, hq]
      split
      · exact atArc_sound h fun arc sem harc hsem => dropAccount_sound h hq harc hsem
      · exact h
  | dropArc r =>
    cases hq : s.requests.lookup r with
    | none => simpa [step, hq] using h
    | some q =>
      simp only [step, hq]
      split
      · rename_i hguard
        exact dropArc_sound h hq hguard.2
      · exact h

theorem run_sound (h : s.Sound globalLimit) (events : List WeakEvent) :
    (s.run events).Sound globalLimit := by
  induction events generalizing s with
  | nil => exact h
  | cons ev events ih => exact ih (step_sound h ev)

theorem step_perAccountLimit (s : WeakAdmission) (ev : WeakEvent) :
    (s.step ev).perAccountLimit = s.perAccountLimit := by
  cases ev with
  | retain account =>
    simp only [step, retain]
    split
    · split <;> rfl
    · rfl
  | enter r account =>
    simp only [step, enter, accountSemaphore]
    split
    · rfl
    · split <;> rfl
  | acquireGlobal r =>
    simp only [step]
    split
    · split <;> rfl
    · rfl
  | acquireAccount r =>
    simp only [step, atArc]
    repeat' split
    all_goals rfl
  | leave r => rfl
  | dropGlobal r =>
    simp only [step, dropGlobal]
    repeat' split
    all_goals rfl
  | dropAccount r =>
    simp only [step, atArc, dropAccount]
    repeat' split
    all_goals rfl
  | dropArc r =>
    simp only [step]
    split
    · split <;> rfl
    · rfl

theorem run_perAccountLimit (s : WeakAdmission) (events : List WeakEvent) :
    (s.run events).perAccountLimit = s.perAccountLimit := by
  induction events generalizing s with
  | nil => rfl
  | cons ev events ih =>
    have hstep := ih (s.step ev)
    rw [step_perAccountLimit] at hstep
    exact hstep

/-! ## No permit is handed out twice, none is lost -/

/-- The requests that hold a global permit. -/
def holders (s : WeakAdmission) : Finset Nat :=
  s.requests.keysWhere fun q => q.globalPermit = .held

/-- The requests of the account that hold one of its permits. -/
def holdersOf (s : WeakAdmission) (account : Uuid) : Finset Nat :=
  s.requests.keysWhere fun q => q.account = account ∧ q.accountPermit = .held

/-- The semaphore that an `acquire` of the account would get. -/
def semaphoreOf (s : WeakAdmission) (account : Uuid) : Option Semaphore :=
  let (arc, s) := s.accountSemaphore account
  s.semaphores.lookup arc

/-- It serves all requests of the account, the ones before it included. -/
theorem semaphoreOf_serves (h : s.Sound globalLimit) (account : Uuid) :
    ∃ sem, s.semaphoreOf account = some sem ∧
      sem.Serves s.perAccountLimit (s.holdersOf account)
        (s.requests.keysWhere fun q => q.account = account ∧ q.accountPermit = .waiting) := by
  obtain ⟨hsound, hentry, hrequests⟩ := accountSemaphore_sound h account
  have hlimit : (s.accountSemaphore account).2.perAccountLimit = s.perAccountLimit := by
    unfold accountSemaphore
    split <;> rfl
  unfold semaphoreOf holdersOf
  rw [← hlimit, ← hrequests]
  generalize s.accountSemaphore account = found at hsound hentry
  obtain ⟨arc, s'⟩ := found
  dsimp only at hsound hentry ⊢
  obtain ⟨sem, hsem⟩ := hsound.made account arc hentry
  have hserves := hsound.serves arc sem hsem
  have hview : ∀ hold, hold ≠ .absent →
      (s'.requests.keysWhere fun q => q.holdOf arc = hold) =
        s'.requests.keysWhere fun q => q.account = account ∧ q.accountPermit = hold := by
    intro hold hne
    ext r
    rw [Table.mem_keysWhere, Table.mem_keysWhere]
    constructor
    · intro hr
      obtain ⟨q, hq, hhold⟩ := hr
      rw [decide_eq_true_iff, UploadTicket.holdOf] at hhold
      by_cases harc : q.arc = some arc
      · rw [if_pos harc] at hhold
        have haccount := hsound.unshared q.account account arc
          ((hsound.placed r q hq).pointed arc harc) hentry
        exact ⟨q, hq, by simp [haccount, hhold]⟩
      · rw [if_neg harc] at hhold
        exact absurd hhold.symm hne
    · intro hr
      obtain ⟨q, hq, hhold⟩ := hr
      rw [decide_eq_true_iff] at hhold
      have harc : q.arc = some arc := by
        cases harc : q.arc with
        | none =>
          have habsent := (hsound.placed r q hq).attached harc
          rw [hhold.2] at habsent
          exact absurd habsent hne
        | some arc' =>
          have hpointed := (hsound.placed r q hq).pointed arc' harc
          rw [hhold.1, hentry] at hpointed
          exact hpointed.symm
      exact ⟨q, hq, by rw [decide_eq_true_iff, holdOf_self harc, hhold.2]⟩
  refine ⟨sem, hsem, ?_⟩
  unfold Semaphore.ServesHolds at hserves
  rw [hview .held (by decide), hview .waiting (by decide)] at hserves
  exact hserves

/-- In every run, the live permits of an account and of all accounts are as few as the limits say,
every permit is free or held, and one that nobody holds or waits for is free. -/
theorem permits_bounded_and_kept (globalLimit perAccountLimit : Nat) (events : List WeakEvent) :
    let s := (new globalLimit perAccountLimit).run events
    s.livePermits.card ≤ globalLimit ∧
      (∀ account, (s.livePermitsOf account).card ≤ perAccountLimit) ∧
      s.globalPermits.permits + s.holders.card = globalLimit ∧
      (∀ account, ∃ sem, s.semaphoreOf account = some sem ∧
        sem.permits + (s.holdersOf account).card = perAccountLimit) ∧
      ((∀ r q, s.requests.lookup r = some q → q.globalPermit = .absent) →
        s.globalPermits = .new globalLimit) ∧
      ∀ account, (∀ r q, s.requests.lookup r = some q → q.account = account →
          q.accountPermit = .absent) →
        s.semaphoreOf account = some (.new perAccountLimit) := by
  dsimp only
  have hsound := run_sound (new_sound globalLimit perAccountLimit) events
  have hlimit : ((new globalLimit perAccountLimit).run events).perAccountLimit = perAccountLimit :=
    run_perAccountLimit _ events
  generalize (new globalLimit perAccountLimit).run events = s at hsound hlimit ⊢
  have haccount := semaphoreOf_serves hsound
  rw [hlimit] at haccount
  refine ⟨?_, fun account => ?_, hsound.global.permits, fun account => ?_, fun hidle => ?_,
    fun account hidle => ?_⟩
  · have hlive : s.livePermits ⊆ s.holders := by
      apply Table.keysWhere_mono
      intro q hq
      simp only [UploadTicket.isLive, decide_eq_true_eq] at hq
      simp [hq.1]
    exact (Finset.card_le_card hlive).trans hsound.global.card_le
  · obtain ⟨sem, -, hserves⟩ := haccount account
    have hlive : s.livePermitsOf account ⊆ s.holdersOf account := by
      apply Table.keysWhere_mono
      intro q hq
      simp only [UploadTicket.isLive, decide_eq_true_eq] at hq
      simp [hq.1, hq.2.2.1]
    exact (Finset.card_le_card hlive).trans hserves.card_le
  · obtain ⟨sem, hsem, hserves⟩ := haccount account
    exact ⟨sem, hsem, hserves.permits⟩
  · have hglobal := hsound.global
    unfold Semaphore.ServesHolds at hglobal
    rw [Table.keysWhere_eq_empty, Table.keysWhere_eq_empty] at hglobal
    · exact Semaphore.Serves.eq_new hglobal
    · intro r q hq
      simp [hidle r q hq]
    · intro r q hq
      simp [hidle r q hq]
  · obtain ⟨sem, hsem, hserves⟩ := haccount account
    unfold holdersOf at hserves
    rw [Table.keysWhere_eq_empty, Table.keysWhere_eq_empty] at hserves
    · rw [hsem, Semaphore.Serves.eq_new hserves]
    · intro r q hq
      by_cases heq : q.account = account
      · simp [hidle r q hq heq]
      · simp [heq]
    · intro r q hq
      by_cases heq : q.account = account
      · simp [hidle r q hq heq]
      · simp [heq]

set_option maxRecDepth 10000 in
/-- The first request of account 1 leaves while it waits, its entry goes, and the next request gets
a new semaphore. -/
theorem entry_made_again :
    let s := (new 1 1).run
      [.enter 0 2, .acquireGlobal 0, .acquireAccount 0, .enter 1 1, .acquireGlobal 1, .leave 1,
        .dropGlobal 1, .dropArc 1, .retain 1, .enter 2 1, .leave 0, .dropGlobal 0,
        .acquireGlobal 2, .acquireAccount 2]
    s.livePermits = {2} ∧ s.accounts.lookup 1 = some 2 ∧ s.globalPermits = ⟨0, []⟩ := by
  decide

end WeakAdmission

end MediaBackup
