import MediaBackup.Framework.Semaphore
import MediaBackup.Framework.Table
import MediaBackup.Protocol

/-!
# Admission of uploads

`UploadAdmission` lets a `put_part` through when it holds a permit of the server and one of its
account. The two are taken one after the other.
-/

namespace MediaBackup

/-- Where a request stands inside `acquire`, or that it has left it with both permits. -/
inductive AdmissionPhase
  | waitingGlobal
  | gotGlobal
  | waitingAccount
  | admitted
  deriving DecidableEq

structure AdmissionTicket where
  account : Uuid
  phase : AdmissionPhase
  deriving DecidableEq

namespace AdmissionTicket

def waitsGlobal (q : AdmissionTicket) : Bool := q.phase = .waitingGlobal

def holdsGlobal (q : AdmissionTicket) : Bool := q.phase ≠ .waitingGlobal

def waitsAccount (account : Uuid) (q : AdmissionTicket) : Bool :=
  q.account = account ∧ q.phase = .waitingAccount

def isAdmitted (account : Uuid) (q : AdmissionTicket) : Bool :=
  q.account = account ∧ q.phase = .admitted

end AdmissionTicket

open AdmissionTicket

/-- The semaphores, and the requests that have entered `acquire` and not let go yet. -/
structure UploadAdmission where
  globalPermits : Semaphore
  perAccountLimit : Nat
  accounts : Table Uuid Semaphore
  requests : Table Nat AdmissionTicket

/-- What happens to the requests. A request leaves when its `put_part` ends, when it is cancelled
and when its time is up. -/
inductive AdmissionEvent
  | acquire (request : Nat) (account : Uuid)
  | proceed (request : Nat)
  | leave (request : Nat)
  deriving DecidableEq

namespace UploadAdmission

def new (globalLimit perAccountLimit : Nat) : UploadAdmission :=
  ⟨.new globalLimit, perAccountLimit, ∅, ∅⟩

/-- `retain` and the lookup of the account's semaphore, which lives as long as a request has it. -/
def accountSemaphores (s : UploadAdmission) (account : Uuid) : Table Uuid Semaphore :=
  let accounts := s.accounts.deleteWhere fun id _ =>
    !s.requests.exists? fun _ q => q.account = id
  if (accounts.lookup account).isSome then accounts
  else accounts.insert account (.new s.perAccountLimit)

/-- `acquire`, up to the global permit. -/
def acquire (s : UploadAdmission) (request : Nat) (account : Uuid) : UploadAdmission :=
  let accounts := s.accountSemaphores account
  let (got, globalPermits) := s.globalPermits.acquire request
  { s with
    globalPermits := globalPermits
    accounts := accounts
    requests := s.requests.insert request ⟨account, if got then .gotGlobal else .waitingGlobal⟩ }

/-- The rest of `acquire`, for a request that has its global permit. -/
def acquireAccount (s : UploadAdmission) (request : Nat) (account : Uuid) : UploadAdmission :=
  match s.accounts.lookup account with
  | none => s
  | some sem =>
      let (got, sem) := sem.acquire request
      { s with
        accounts := s.accounts.insert account sem
        requests := s.requests.insert request
          ⟨account, if got then .admitted else .waitingAccount⟩ }

/-- A global permit comes back. -/
def releaseGlobal (s : UploadAdmission) : UploadAdmission :=
  let (next, globalPermits) := s.globalPermits.release
  { s with
    globalPermits := globalPermits
    requests := match next with
      | none => s.requests
      | some request => s.requests.modify request fun q => { q with phase := .gotGlobal } }

/-- A permit of the account comes back. -/
def releaseAccount (s : UploadAdmission) (account : Uuid) : UploadAdmission :=
  match s.accounts.lookup account with
  | none => s
  | some sem =>
      let (next, sem) := sem.release
      { s with
        accounts := s.accounts.insert account sem
        requests := match next with
          | none => s.requests
          | some request => s.requests.modify request fun q => { q with phase := .admitted } }

def cancelAccount (s : UploadAdmission) (request : Nat) (account : Uuid) : UploadAdmission :=
  { s with accounts := s.accounts.modify account fun sem => sem.cancel request }

/-- The request drops whatever it holds or waits for. -/
def drop (s : UploadAdmission) (request : Nat) (q : AdmissionTicket) : UploadAdmission :=
  let s := { s with requests := s.requests.erase request }
  match q.phase with
  | .waitingGlobal => { s with globalPermits := s.globalPermits.cancel request }
  | .gotGlobal => s.releaseGlobal
  | .waitingAccount => (s.cancelAccount request q.account).releaseGlobal
  | .admitted => s.releaseGlobal.releaseAccount q.account

/-- One event; those that do not fit the state are without effect. -/
def step (s : UploadAdmission) : AdmissionEvent → UploadAdmission
  | .acquire request account =>
      if (s.requests.lookup request).isSome then s else s.acquire request account
  | .proceed request =>
      match s.requests.lookup request with
      | some ⟨account, .gotGlobal⟩ => s.acquireAccount request account
      | _ => s
  | .leave request =>
      match s.requests.lookup request with
      | some q => s.drop request q
      | none => s

def run (s : UploadAdmission) (events : List AdmissionEvent) : UploadAdmission :=
  events.foldl step s

/-- The requests whose tickets satisfy the condition. -/
def among (requests : Table Nat AdmissionTicket) (p : AdmissionTicket → Bool) : Finset Nat :=
  ((requests.select fun _ q => p q).map Prod.fst).toFinset

/-- The requests of the account that hold a global permit. -/
def heldBy (s : UploadAdmission) (account : Uuid) : Finset Nat :=
  among s.requests fun q => q.account = account && q.holdsGlobal

/-- The requests of the account that are inside `acquire` or have been admitted. -/
def inProgress (s : UploadAdmission) (account : Uuid) : Finset Nat :=
  among s.requests fun q => q.account = account

variable {requests : Table Nat AdmissionTicket} {p : AdmissionTicket → Bool}

theorem mem_among {r : Nat} :
    r ∈ among requests p ↔ ∃ q, requests.lookup r = some q ∧ p q = true := by
  unfold among
  rw [List.mem_toFinset, List.mem_map]
  constructor
  · rintro ⟨⟨r', q⟩, hmem, rfl⟩
    exact ⟨q, Table.mem_select.mp hmem⟩
  · rintro ⟨q, hq⟩
    exact ⟨(r, q), Table.mem_select.mpr hq, rfl⟩

theorem among_erase (r : Nat) : among (requests.erase r) p = (among requests p).erase r := by
  ext r'
  simp only [mem_among, Finset.mem_erase, Table.lookup_erase_eq]
  by_cases h : r' = r
  · simp [h]
  · simp [h]

theorem among_insert (r : Nat) (q : AdmissionTicket) : among (requests.insert r q) p =
    if p q then insert r (among requests p) else (among requests p).erase r := by
  ext r'
  by_cases hp : p q = true
  · rw [if_pos hp, Finset.mem_insert, mem_among, mem_among, Table.lookup_insert_eq]
    by_cases h : r' = r
    · simp [h, hp]
    · simp [h]
  · rw [if_neg hp, Finset.mem_erase, mem_among, mem_among, Table.lookup_insert_eq]
    by_cases h : r' = r
    · simp [h, hp]
    · simp [h]

theorem among_mono {p' : AdmissionTicket → Bool} (h : ∀ q, p q = true → p' q = true) :
    among requests p ⊆ among requests p' := by
  intro r hr
  obtain ⟨q, hq, hp⟩ := mem_among.mp hr
  exact mem_among.mpr ⟨q, hq, h q hp⟩

/-- Every semaphore serves the requests of its kind. -/
structure Balanced (globalLimit : Nat) (s : UploadAdmission) : Prop where
  global : s.globalPermits.Serves globalLimit (among s.requests holdsGlobal)
    (among s.requests waitsGlobal)
  accounts : ∀ account sem, s.accounts.lookup account = some sem →
    sem.Serves s.perAccountLimit (among s.requests (isAdmitted account))
      (among s.requests (waitsAccount account))
  present : ∀ r q, s.requests.lookup r = some q → ∃ sem, s.accounts.lookup q.account = some sem

/-- A request whose ticket does not satisfy the condition before and after is not among them. -/
theorem among_insert_same {r : Nat} {q q' : AdmissionTicket} (hq : requests.lookup r = some q)
    (hp : p q' = p q) : among (requests.insert r q') p = among requests p := by
  rw [among_insert]
  by_cases h : p q = true
  · rw [hp, if_pos h, Finset.insert_eq_of_mem (mem_among.mpr ⟨q, hq, h⟩)]
  · rw [hp, if_neg h, Finset.erase_eq_of_notMem]
    intro hmem
    obtain ⟨q₀, hq₀, hp₀⟩ := mem_among.mp hmem
    rw [hq] at hq₀
    cases hq₀
    exact h hp₀

theorem not_among_of_none {r : Nat} (h : requests.lookup r = none) : r ∉ among requests p := by
  intro hmem
  obtain ⟨q, hq, -⟩ := mem_among.mp hmem
  simp [h] at hq

/-- Every request was there before, with the same account. -/
def Rephased (requests requests' : Table Nat AdmissionTicket) : Prop :=
  ∀ r q', requests'.lookup r = some q' → ∃ q, requests.lookup r = some q ∧ q.account = q'.account

theorem Rephased.refl (requests : Table Nat AdmissionTicket) : Rephased requests requests :=
  fun _ q hq => ⟨q, hq, rfl⟩

theorem Rephased.trans {requests requests' requests'' : Table Nat AdmissionTicket}
    (h : Rephased requests requests') (h' : Rephased requests' requests'') :
    Rephased requests requests'' := by
  intro r q'' hq''
  obtain ⟨q', hq', haccount'⟩ := h' r q'' hq''
  obtain ⟨q, hq, haccount⟩ := h r q' hq'
  exact ⟨q, hq, haccount.trans haccount'⟩

theorem rephased_erase (r : Nat) : Rephased requests (requests.erase r) := by
  intro r' q' hq'
  rw [Table.lookup_erase_eq] at hq'
  by_cases heq : r' = r
  · simp [heq] at hq'
  · rw [if_neg heq] at hq'
    exact ⟨q', hq', rfl⟩

theorem rephased_insert {r : Nat} {q n : AdmissionTicket} (hq : requests.lookup r = some q)
    (haccount : q.account = n.account) : Rephased requests (requests.insert r n) := by
  intro r' q₁ hq₁
  rw [Table.lookup_insert_eq] at hq₁
  by_cases heq : r' = r
  · rw [if_pos heq] at hq₁
    cases hq₁
    exact ⟨q, heq ▸ hq, haccount⟩
  · rw [if_neg heq] at hq₁
    exact ⟨q₁, hq₁, rfl⟩

theorem rephased_acquireAccount {s : UploadAdmission} {r : Nat} {account : Uuid}
    {phase : AdmissionPhase} (hq : s.requests.lookup r = some ⟨account, phase⟩) :
    Rephased s.requests (s.acquireAccount r account).requests := by
  unfold acquireAccount
  cases s.accounts.lookup account with
  | none => exact .refl s.requests
  | some sem =>
    rcases hacquire : sem.acquire r with ⟨got, sem'⟩
    simp only [hacquire]
    exact rephased_insert hq rfl

theorem rephased_modify (r : Nat) (phase : AdmissionPhase) :
    Rephased requests (requests.modify r fun q => { q with phase := phase }) := by
  cases hq : requests.lookup r with
  | none =>
    simp only [Table.modify, hq]
    exact .refl requests
  | some q =>
    simp only [Table.modify, hq]
    exact rephased_insert hq rfl

theorem rephased_releaseGlobal (s : UploadAdmission) :
    Rephased s.requests s.releaseGlobal.requests := by
  unfold releaseGlobal
  rcases s.globalPermits.release with ⟨next, globalPermits⟩
  cases next with
  | none => exact .refl s.requests
  | some next => exact rephased_modify next .gotGlobal

theorem rephased_releaseAccount (s : UploadAdmission) (account : Uuid) :
    Rephased s.requests (s.releaseAccount account).requests := by
  unfold releaseAccount
  cases s.accounts.lookup account with
  | none => exact .refl s.requests
  | some sem =>
    rcases hrelease : sem.release with ⟨next, sem'⟩
    cases next with
    | none =>
      simp only [hrelease]
      exact .refl s.requests
    | some next =>
      simp only [hrelease]
      exact rephased_modify next .admitted

variable {s : UploadAdmission} {globalLimit r : Nat}

theorem modify_of_lookup {requests : Table Nat AdmissionTicket} {r : Nat} {q : AdmissionTicket}
    (h : requests.lookup r = some q) (f : AdmissionTicket → AdmissionTicket) :
    requests.modify r f = requests.insert r (f q) := by
  simp [Table.modify, h]

/-- A request that is gone gives its global permit back. -/
theorem releaseGlobal_spec
    (hg : s.globalPermits.Serves globalLimit (insert r (among s.requests holdsGlobal))
      (among s.requests waitsGlobal)) (hr : s.requests.lookup r = none) :
    s.releaseGlobal.globalPermits.Serves globalLimit (among s.releaseGlobal.requests holdsGlobal)
        (among s.releaseGlobal.requests waitsGlobal) ∧
      (∀ account, among s.releaseGlobal.requests (isAdmitted account) =
          among s.requests (isAdmitted account) ∧
        among s.releaseGlobal.requests (waitsAccount account) =
          among s.requests (waitsAccount account)) ∧
      s.releaseGlobal.requests.lookup r = none := by
  have hnot : r ∉ among s.requests holdsGlobal := not_among_of_none hr
  have herase : (insert r (among s.requests holdsGlobal)).erase r =
      among s.requests holdsGlobal := Finset.erase_insert hnot
  cases hwaiters : s.globalPermits.waiters with
  | nil =>
    have hfreed := hg.freed (Finset.mem_insert_self r _) hwaiters
    rw [herase] at hfreed
    have hrequests : s.releaseGlobal.requests = s.requests := by
      simp [releaseGlobal, Semaphore.release, hwaiters]
    have hpermits : s.releaseGlobal.globalPermits = s.globalPermits.release.2 := by
      simp [releaseGlobal]
    rw [hrequests, hpermits]
    exact ⟨hfreed, fun _ => ⟨rfl, rfl⟩, hr⟩
  | cons next rest =>
    have hnext : next ∈ among s.requests waitsGlobal := by
      rw [← hg.waiters, hwaiters]
      exact List.mem_cons_self
    obtain ⟨q, hq, hwaits⟩ := mem_among.mp hnext
    have hphase : q.phase = .waitingGlobal := by simpa [waitsGlobal] using hwaits
    have hne : next ≠ r := by
      intro heq
      rw [heq, hr] at hq
      cases hq
    have hfree : next ∉ insert r (among s.requests holdsGlobal) := by
      rw [Finset.mem_insert, mem_among]
      rintro (heq | ⟨q', hq', hholds⟩)
      · exact hne heq
      · rw [hq] at hq'
        cases hq'
        simp [holdsGlobal, hphase] at hholds
    have hhanded := hg.handed (Finset.mem_insert_self r _) hfree hwaiters
    rw [herase] at hhanded
    have hrequests : s.releaseGlobal.requests =
        s.requests.insert next { q with phase := .gotGlobal } := by
      simp [releaseGlobal, Semaphore.release, hwaiters, modify_of_lookup hq]
    have hpermits : s.releaseGlobal.globalPermits = s.globalPermits.release.2 := by
      simp [releaseGlobal]
    rw [hrequests, hpermits]
    refine ⟨?_, fun account => ⟨?_, ?_⟩, ?_⟩
    · rw [among_insert, among_insert, if_pos (by simp [holdsGlobal]),
        if_neg (by simp [waitsGlobal])]
      exact hhanded
    · exact among_insert_same hq (by simp [isAdmitted, hphase])
    · exact among_insert_same hq (by simp [waitsAccount, hphase])
    · rw [Table.lookup_insert_eq, if_neg hne.symm, hr]

/-- A request that is gone gives its permit of the account back. -/
theorem releaseAccount_balanced {account : Uuid} {sem : Semaphore}
    (hsem : s.accounts.lookup account = some sem)
    (ha : sem.Serves s.perAccountLimit (insert r (among s.requests (isAdmitted account)))
      (among s.requests (waitsAccount account)))
    (hr : s.requests.lookup r = none)
    (hg : s.globalPermits.Serves globalLimit (among s.requests holdsGlobal)
      (among s.requests waitsGlobal))
    (hothers : ∀ other sem, other ≠ account → s.accounts.lookup other = some sem →
      sem.Serves s.perAccountLimit (among s.requests (isAdmitted other))
        (among s.requests (waitsAccount other)))
    (hpresent : ∀ r q, s.requests.lookup r = some q →
      ∃ sem, s.accounts.lookup q.account = some sem) :
    (s.releaseAccount account).Balanced globalLimit := by
  have herase : (insert r (among s.requests (isAdmitted account))).erase r =
      among s.requests (isAdmitted account) := Finset.erase_insert (not_among_of_none hr)
  have hfound : ∀ other, ∃ sem', (s.accounts.lookup other).isSome →
      (s.accounts.insert account sem.release.2).lookup other = some sem' := by
    intro other
    by_cases heq : other = account
    · exact ⟨sem.release.2, fun _ => by rw [Table.lookup_insert_eq, if_pos heq]⟩
    · cases hother : s.accounts.lookup other with
      | none => exact ⟨sem, fun h => by simp at h⟩
      | some sem' => exact ⟨sem', fun _ => by rw [Table.lookup_insert_eq, if_neg heq, hother]⟩
  cases hwaiters : sem.waiters with
  | nil =>
    have hfreed := ha.freed (Finset.mem_insert_self r _) hwaiters
    rw [herase] at hfreed
    have hstate : s.releaseAccount account =
        { s with accounts := s.accounts.insert account sem.release.2 } := by
      simp [releaseAccount, hsem, Semaphore.release, hwaiters]
    rw [hstate]
    refine ⟨hg, fun other sem' hsem' => ?_, fun r' q hq => ?_⟩
    · change (s.accounts.insert account sem.release.2).lookup other = some sem' at hsem'
      rw [Table.lookup_insert_eq] at hsem'
      by_cases heq : other = account
      · rw [if_pos heq] at hsem'
        cases hsem'
        rw [heq]
        exact hfreed
      · rw [if_neg heq] at hsem'
        exact hothers other sem' heq hsem'
    · obtain ⟨sem', hsem'⟩ := hpresent r' q hq
      obtain ⟨sem'', hsem''⟩ := hfound q.account
      exact ⟨sem'', hsem'' (by simp [hsem'])⟩
  | cons next rest =>
    have hnext : next ∈ among s.requests (waitsAccount account) := by
      rw [← ha.waiters, hwaiters]
      exact List.mem_cons_self
    obtain ⟨q, hq, hwaits⟩ := mem_among.mp hnext
    obtain ⟨haccount, hphase⟩ : q.account = account ∧ q.phase = .waitingAccount := by
      simpa [waitsAccount] using hwaits
    have hne : next ≠ r := by
      intro heq
      rw [heq, hr] at hq
      cases hq
    have hfree : next ∉ insert r (among s.requests (isAdmitted account)) := by
      rw [Finset.mem_insert, mem_among]
      rintro (heq | ⟨q', hq', hadmitted⟩)
      · exact hne heq
      · rw [hq] at hq'
        cases hq'
        simp [isAdmitted, hphase] at hadmitted
    have hhanded := ha.handed (Finset.mem_insert_self r _) hfree hwaiters
    rw [herase] at hhanded
    have hstate : s.releaseAccount account =
        { s with
          accounts := s.accounts.insert account sem.release.2
          requests := s.requests.insert next { q with phase := .admitted } } := by
      simp [releaseAccount, hsem, Semaphore.release, hwaiters, modify_of_lookup hq]
    rw [hstate]
    refine ⟨?_, fun other sem' hsem' => ?_, fun r' q' hq' => ?_⟩
    · change s.globalPermits.Serves globalLimit (among (s.requests.insert next _) holdsGlobal)
        (among (s.requests.insert next _) waitsGlobal)
      rw [among_insert_same hq (by simp [holdsGlobal, hphase]),
        among_insert_same hq (by simp [waitsGlobal, hphase])]
      exact hg
    · change (s.accounts.insert account sem.release.2).lookup other = some sem' at hsem'
      change sem'.Serves s.perAccountLimit (among (s.requests.insert next _) (isAdmitted other))
        (among (s.requests.insert next _) (waitsAccount other))
      rw [Table.lookup_insert_eq] at hsem'
      by_cases heq : other = account
      · rw [if_pos heq] at hsem'
        cases hsem'
        rw [heq, among_insert, among_insert, if_pos (by simp [isAdmitted, haccount]),
          if_neg (by simp [waitsAccount])]
        exact hhanded
      · rw [if_neg heq] at hsem'
        have hqother : q.account ≠ other := by
          rw [haccount]
          exact Ne.symm heq
        rw [among_insert_same hq (by simp [isAdmitted, hqother]),
          among_insert_same hq (by simp [waitsAccount, hqother])]
        exact hothers other sem' heq hsem'
    · change (s.requests.insert next _).lookup r' = some q' at hq'
      obtain ⟨q₀, hq₀, hsame⟩ :=
        rephased_insert (n := { q with phase := .admitted }) hq rfl r' q' hq'
      obtain ⟨sem', hsem'⟩ := hpresent r' q₀ hq₀
      obtain ⟨sem'', hsem''⟩ := hfound q₀.account
      rw [← hsame]
      exact ⟨sem'', hsem'' (by simp [hsem'])⟩

/-- Giving a global permit back leaves the accounts as they were. -/
theorem releaseGlobal_balanced
    (hg : s.globalPermits.Serves globalLimit (insert r (among s.requests holdsGlobal))
      (among s.requests waitsGlobal)) (hr : s.requests.lookup r = none)
    (haccounts : ∀ account sem, s.accounts.lookup account = some sem →
      sem.Serves s.perAccountLimit (among s.requests (isAdmitted account))
        (among s.requests (waitsAccount account)))
    (hpresent : ∀ r q, s.requests.lookup r = some q →
      ∃ sem, s.accounts.lookup q.account = some sem) :
    s.releaseGlobal.Balanced globalLimit := by
  obtain ⟨hglobal, hsame, -⟩ := releaseGlobal_spec hg hr
  refine ⟨hglobal, fun account sem hsem => ?_, fun r' q' hq' => ?_⟩
  · rw [(hsame account).1, (hsame account).2]
    exact haccounts account sem hsem
  · obtain ⟨q, hq, haccount⟩ := rephased_releaseGlobal s r' q' hq'
    rw [← haccount]
    exact hpresent r' q hq

theorem drop_balanced (h : s.Balanced globalLimit) {q : AdmissionTicket}
    (hq : s.requests.lookup r = some q) : (s.drop r q).Balanced globalLimit := by
  have hgone : (s.requests.erase r).lookup r = none := by simp
  have hpresent : ∀ r' q', (s.requests.erase r).lookup r' = some q' →
      ∃ sem, s.accounts.lookup q'.account = some sem := by
    intro r' q' hq'
    obtain ⟨q₀, hq₀, haccount⟩ := rephased_erase r r' q' hq'
    rw [← haccount]
    exact h.present r' q₀ hq₀
  have hold : ∀ p : AdmissionTicket → Bool, p q = false →
      among (s.requests.erase r) p = among s.requests p := by
    intro p hp
    rw [among_erase, Finset.erase_eq_of_notMem]
    intro hmem
    obtain ⟨q', hq', hp'⟩ := mem_among.mp hmem
    rw [hq] at hq'
    cases hq'
    simp [hp] at hp'
  have hback : ∀ p : AdmissionTicket → Bool, p q = true →
      insert r (among (s.requests.erase r) p) = among s.requests p := by
    intro p hp
    rw [among_erase, Finset.insert_erase (mem_among.mpr ⟨q, hq, hp⟩)]
  unfold drop
  cases hphase : q.phase with
  | waitingGlobal =>
    refine ⟨?_, fun account sem hsem => ?_, hpresent⟩
    · have hcancelled := h.global.cancelled (r := r)
      change (s.globalPermits.cancel r).Serves globalLimit (among (s.requests.erase r) holdsGlobal)
        (among (s.requests.erase r) waitsGlobal)
      rw [hold holdsGlobal (by simp [holdsGlobal, hphase]), among_erase]
      exact hcancelled
    · change sem.Serves s.perAccountLimit (among (s.requests.erase r) (isAdmitted account))
        (among (s.requests.erase r) (waitsAccount account))
      rw [hold _ (by simp [isAdmitted, hphase]), hold _ (by simp [waitsAccount, hphase])]
      exact h.accounts account sem hsem
  | gotGlobal =>
    apply releaseGlobal_balanced (r := r) ?_ hgone ?_ hpresent
    · change s.globalPermits.Serves globalLimit (insert r (among (s.requests.erase r) holdsGlobal))
        (among (s.requests.erase r) waitsGlobal)
      rw [hback holdsGlobal (by simp [holdsGlobal, hphase]),
        hold waitsGlobal (by simp [waitsGlobal, hphase])]
      exact h.global
    · intro account sem hsem
      change sem.Serves s.perAccountLimit (among (s.requests.erase r) (isAdmitted account))
        (among (s.requests.erase r) (waitsAccount account))
      rw [hold _ (by simp [isAdmitted, hphase]), hold _ (by simp [waitsAccount, hphase])]
      exact h.accounts account sem hsem
  | waitingAccount =>
    obtain ⟨sem, hsem⟩ := h.present r q hq
    apply releaseGlobal_balanced (r := r) ?_ hgone ?_ ?_
    · change s.globalPermits.Serves globalLimit (insert r (among (s.requests.erase r) holdsGlobal))
        (among (s.requests.erase r) waitsGlobal)
      rw [hback holdsGlobal (by simp [holdsGlobal, hphase]),
        hold waitsGlobal (by simp [waitsGlobal, hphase])]
      exact h.global
    · intro account sem' hsem'
      change (s.accounts.modify q.account fun sem => sem.cancel r).lookup account = some sem'
        at hsem'
      change sem'.Serves s.perAccountLimit (among (s.requests.erase r) (isAdmitted account))
        (among (s.requests.erase r) (waitsAccount account))
      rw [hold _ (by simp [isAdmitted, hphase])]
      rw [Table.lookup_modify] at hsem'
      by_cases heq : account = q.account
      · rw [if_pos heq, hsem] at hsem'
        cases hsem'
        have hcancelled := (h.accounts q.account sem hsem).cancelled (r := r)
        rw [heq, among_erase]
        exact hcancelled
      · rw [if_neg heq] at hsem'
        have hother : waitsAccount account q = false := by
          simp [waitsAccount, Ne.symm heq]
        rw [hold _ hother]
        exact h.accounts account sem' hsem'
    · intro r' q' hq'
      obtain ⟨sem', hsem'⟩ := hpresent r' q' hq'
      change ∃ sem, (s.accounts.modify q.account fun sem => sem.cancel r).lookup q'.account =
        some sem
      rw [Table.lookup_modify]
      by_cases heq : q'.account = q.account
      · exact ⟨sem.cancel r, by rw [if_pos heq, hsem]; rfl⟩
      · exact ⟨sem', by rw [if_neg heq, hsem']⟩
  | admitted =>
    obtain ⟨sem, hsem⟩ := h.present r q hq
    have hg : s.globalPermits.Serves globalLimit
        (insert r (among (s.requests.erase r) holdsGlobal))
        (among (s.requests.erase r) waitsGlobal) := by
      rw [hback holdsGlobal (by simp [holdsGlobal, hphase]),
        hold waitsGlobal (by simp [waitsGlobal, hphase])]
      exact h.global
    obtain ⟨hglobal, hsame, hgone'⟩ :=
      releaseGlobal_spec (s := { s with requests := s.requests.erase r }) hg hgone
    change ({ s with requests := s.requests.erase r }.releaseGlobal.releaseAccount
      q.account).Balanced globalLimit
    have hsem' : { s with requests := s.requests.erase r }.releaseGlobal.accounts.lookup
        q.account = some sem := hsem
    apply releaseAccount_balanced hsem' ?_ hgone' hglobal ?_ ?_
    · rw [(hsame q.account).1, (hsame q.account).2]
      change sem.Serves s.perAccountLimit
        (insert r (among (s.requests.erase r) (isAdmitted q.account)))
        (among (s.requests.erase r) (waitsAccount q.account))
      rw [hback _ (by simp [isAdmitted, hphase]), hold _ (by simp [waitsAccount, hphase])]
      exact h.accounts q.account sem hsem
    · intro other sem' hne hsem'
      rw [(hsame other).1, (hsame other).2]
      change sem'.Serves s.perAccountLimit (among (s.requests.erase r) (isAdmitted other))
        (among (s.requests.erase r) (waitsAccount other))
      rw [hold _ (by simp [isAdmitted, Ne.symm hne]), hold _ (by simp [waitsAccount, Ne.symm hne])]
      exact h.accounts other sem' hsem'
    · intro r' q' hq'
      obtain ⟨q₀, hq₀, haccount⟩ :=
        rephased_releaseGlobal { s with requests := s.requests.erase r } r' q' hq'
      rw [← haccount]
      exact hpresent r' q₀ hq₀

theorem accountSemaphores_spec (h : s.Balanced globalLimit) (account : Uuid) :
    (∃ sem, (s.accountSemaphores account).lookup account = some sem) ∧
      (∀ other sem, (s.accountSemaphores account).lookup other = some sem →
        sem.Serves s.perAccountLimit (among s.requests (isAdmitted other))
          (among s.requests (waitsAccount other))) ∧
      ∀ r q, s.requests.lookup r = some q →
        ∃ sem, (s.accountSemaphores account).lookup q.account = some sem := by
  let kept := s.accounts.deleteWhere fun id _ => !s.requests.exists? fun _ q => q.account = id
  have hkept : ∀ other sem, kept.lookup other = some sem → s.accounts.lookup other = some sem := by
    intro other sem hsem
    rw [Table.lookup_deleteWhere, Option.filter_eq_some_iff] at hsem
    exact hsem.1
  have hpresent : ∀ r q, s.requests.lookup r = some q →
      ∃ sem, kept.lookup q.account = some sem := by
    intro r q hq
    obtain ⟨sem, hsem⟩ := h.present r q hq
    refine ⟨sem, ?_⟩
    rw [Table.lookup_deleteWhere, Option.filter_eq_some_iff]
    refine ⟨hsem, ?_⟩
    have hexists : s.requests.exists? (fun _ q' => q'.account = q.account) = true :=
      Table.exists?_eq_true.mpr ⟨r, q, hq, by simp⟩
    simp [hexists]
  unfold accountSemaphores
  by_cases hsome : (kept.lookup account).isSome
  · rw [if_pos hsome]
    obtain ⟨sem, hsem⟩ := Option.isSome_iff_exists.mp hsome
    exact ⟨⟨sem, hsem⟩, fun other sem hsem => h.accounts other sem (hkept other sem hsem), hpresent⟩
  · rw [if_neg hsome]
    have hnone : kept.lookup account = none := by simpa using hsome
    have hempty : ∀ p : AdmissionTicket → Bool, (∀ q, p q = true → q.account = account) →
        among s.requests p = ∅ := by
      intro p hp
      rw [Finset.eq_empty_iff_forall_notMem]
      intro r hr
      obtain ⟨q, hq, hpq⟩ := mem_among.mp hr
      obtain ⟨sem, hsem⟩ := hpresent r q hq
      rw [hp q hpq, hnone] at hsem
      cases hsem
    refine ⟨⟨.new s.perAccountLimit, by rw [Table.lookup_insert_eq, if_pos rfl]⟩,
      fun other sem hsem => ?_, fun r q hq => ?_⟩
    · rw [Table.lookup_insert_eq] at hsem
      by_cases heq : other = account
      · rw [if_pos heq] at hsem
        cases hsem
        rw [heq, hempty (isAdmitted account), hempty (waitsAccount account)]
        · exact .new _
        · intro q hq
          have hboth : q.account = account ∧ q.phase = .waitingAccount := by
            simpa [waitsAccount] using hq
          exact hboth.1
        · intro q hq
          have hboth : q.account = account ∧ q.phase = .admitted := by
            simpa [isAdmitted] using hq
          exact hboth.1
      · rw [if_neg heq] at hsem
        exact h.accounts other sem (hkept other sem hsem)
    · obtain ⟨sem, hsem⟩ := hpresent r q hq
      rw [Table.lookup_insert_eq]
      by_cases heq : q.account = account
      · exact ⟨_, if_pos heq⟩
      · exact ⟨sem, by rw [if_neg heq, hsem]⟩

/-- A new request enters `acquire`. -/
theorem acquire_balanced (h : s.Balanced globalLimit) (hr : s.requests.lookup r = none)
    (account : Uuid) : (s.acquire r account).Balanced globalLimit := by
  obtain ⟨⟨sem₀, hsem₀⟩, haccounts, hpresent⟩ := accountSemaphores_spec h account
  have hsame : ∀ (p : AdmissionTicket → Bool) q, p q = false →
      among (s.requests.insert r q) p = among s.requests p := by
    intro p q hp
    rw [among_insert, if_neg (by simp [hp]), Finset.erase_eq_of_notMem (not_among_of_none hr)]
  have hmore : ∀ (p : AdmissionTicket → Bool) q, p q = true →
      among (s.requests.insert r q) p = insert r (among s.requests p) := by
    intro p q hp
    rw [among_insert, if_pos hp]
  have hfound : ∀ r' q' (q : AdmissionTicket), q.account = account →
      (s.requests.insert r q).lookup r' = some q' →
      ∃ sem, (s.accountSemaphores account).lookup q'.account = some sem := by
    intro r' q' q hq hq'
    rw [Table.lookup_insert_eq] at hq'
    by_cases heq : r' = r
    · rw [if_pos heq] at hq'
      cases hq'
      exact ⟨sem₀, hq ▸ hsem₀⟩
    · rw [if_neg heq] at hq'
      exact hpresent r' q' hq'
  by_cases hp : 0 < s.globalPermits.permits
  · have hstate : s.acquire r account =
        { s with
          globalPermits := (s.globalPermits.acquire r).2
          accounts := s.accountSemaphores account
          requests := s.requests.insert r ⟨account, .gotGlobal⟩ } := by
      simp [acquire, Semaphore.acquire, hp]
    rw [hstate]
    refine ⟨?_, fun other sem hsem => ?_, fun r' q' hq' => hfound r' q' _ rfl hq'⟩
    · change (s.globalPermits.acquire r).2.Serves globalLimit
        (among (s.requests.insert r _) holdsGlobal) (among (s.requests.insert r _) waitsGlobal)
      rw [hmore holdsGlobal _ (by simp [holdsGlobal]), hsame waitsGlobal _ (by simp [waitsGlobal])]
      exact h.global.acquired (not_among_of_none hr) hp
    · change sem.Serves s.perAccountLimit (among (s.requests.insert r _) (isAdmitted other))
        (among (s.requests.insert r _) (waitsAccount other))
      rw [hsame _ _ (by simp [isAdmitted]), hsame _ _ (by simp [waitsAccount])]
      exact haccounts other sem hsem
  · have hstate : s.acquire r account =
        { s with
          globalPermits := (s.globalPermits.acquire r).2
          accounts := s.accountSemaphores account
          requests := s.requests.insert r ⟨account, .waitingGlobal⟩ } := by
      simp [acquire, Semaphore.acquire, hp]
    rw [hstate]
    refine ⟨?_, fun other sem hsem => ?_, fun r' q' hq' => hfound r' q' _ rfl hq'⟩
    · change (s.globalPermits.acquire r).2.Serves globalLimit
        (among (s.requests.insert r _) holdsGlobal) (among (s.requests.insert r _) waitsGlobal)
      rw [hsame holdsGlobal _ (by simp [holdsGlobal]), hmore waitsGlobal _ (by simp [waitsGlobal])]
      exact h.global.queued (not_among_of_none hr) hp
    · change sem.Serves s.perAccountLimit (among (s.requests.insert r _) (isAdmitted other))
        (among (s.requests.insert r _) (waitsAccount other))
      rw [hsame _ _ (by simp [isAdmitted]), hsame _ _ (by simp [waitsAccount])]
      exact haccounts other sem hsem

/-- A request with a global permit goes on to its account. -/
theorem acquireAccount_balanced (h : s.Balanced globalLimit) {account : Uuid}
    (hq : s.requests.lookup r = some ⟨account, .gotGlobal⟩) :
    (s.acquireAccount r account).Balanced globalLimit := by
  obtain ⟨sem, hsem⟩ := h.present r _ hq
  change s.accounts.lookup account = some sem at hsem
  have hnot : ∀ p : AdmissionTicket → Bool, p ⟨account, .gotGlobal⟩ = false →
      r ∉ among s.requests p := by
    intro p hp hmem
    obtain ⟨q', hq', hp'⟩ := mem_among.mp hmem
    rw [hq] at hq'
    cases hq'
    simp [hp] at hp'
  -- the permits of the account are taken from one semaphore, and no other one is touched
  have finish : ∀ phase, phase ≠ .waitingGlobal → phase ≠ .gotGlobal →
      (sem.acquire r).2.Serves s.perAccountLimit
        (among (s.requests.insert r ⟨account, phase⟩) (isAdmitted account))
        (among (s.requests.insert r ⟨account, phase⟩) (waitsAccount account)) →
      Balanced globalLimit { s with
        accounts := s.accounts.insert account (sem.acquire r).2
        requests := s.requests.insert r ⟨account, phase⟩ } := by
    intro phase hwait hgot hserves
    refine ⟨?_, fun other sem' hsem' => ?_, fun r' q' hq' => ?_⟩
    · change s.globalPermits.Serves globalLimit (among (s.requests.insert r _) holdsGlobal)
        (among (s.requests.insert r _) waitsGlobal)
      rw [among_insert_same hq (by simp [holdsGlobal, hwait]),
        among_insert_same hq (by simp [waitsGlobal, hwait])]
      exact h.global
    · change (s.accounts.insert account _).lookup other = some sem' at hsem'
      change sem'.Serves s.perAccountLimit (among (s.requests.insert r _) (isAdmitted other))
        (among (s.requests.insert r _) (waitsAccount other))
      rw [Table.lookup_insert_eq] at hsem'
      by_cases heq : other = account
      · rw [if_pos heq] at hsem'
        cases hsem'
        rw [heq]
        exact hserves
      · rw [if_neg heq] at hsem'
        rw [among_insert_same hq (by simp [isAdmitted, Ne.symm heq]),
          among_insert_same hq (by simp [waitsAccount, Ne.symm heq])]
        exact h.accounts other sem' hsem'
    · change (s.requests.insert r _).lookup r' = some q' at hq'
      change ∃ sem, (s.accounts.insert account _).lookup q'.account = some sem
      rw [Table.lookup_insert_eq] at hq' ⊢
      by_cases heq : q'.account = account
      · exact ⟨_, if_pos heq⟩
      · rw [if_neg heq]
        by_cases hr : r' = r
        · rw [if_pos hr] at hq'
          cases hq'
          exact absurd rfl heq
        · rw [if_neg hr] at hq'
          exact h.present r' q' hq'
  by_cases hp : 0 < sem.permits
  · have hstate : s.acquireAccount r account =
        { s with
          accounts := s.accounts.insert account (sem.acquire r).2
          requests := s.requests.insert r ⟨account, .admitted⟩ } := by
      simp [acquireAccount, hsem, Semaphore.acquire, hp]
    rw [hstate]
    apply finish .admitted (by decide) (by decide)
    rw [among_insert, if_pos (by simp [isAdmitted]),
      among_insert_same hq (by simp [waitsAccount])]
    exact (h.accounts account sem hsem).acquired (hnot _ (by simp [isAdmitted])) hp
  · have hstate : s.acquireAccount r account =
        { s with
          accounts := s.accounts.insert account (sem.acquire r).2
          requests := s.requests.insert r ⟨account, .waitingAccount⟩ } := by
      simp [acquireAccount, hsem, Semaphore.acquire, hp]
    rw [hstate]
    apply finish .waitingAccount (by decide) (by decide)
    rw [among_insert_same hq (by simp [isAdmitted]), among_insert,
      if_pos (by simp [waitsAccount])]
    exact (h.accounts account sem hsem).queued (hnot _ (by simp [waitsAccount])) hp

theorem new_balanced (globalLimit perAccountLimit : Nat) :
    (new globalLimit perAccountLimit).Balanced globalLimit where
  global := .new globalLimit
  accounts account sem hsem := by simp [new] at hsem
  present r q hq := by simp [new] at hq

theorem step_balanced (h : s.Balanced globalLimit) (ev : AdmissionEvent) :
    (s.step ev).Balanced globalLimit := by
  cases ev with
  | acquire request account =>
    by_cases hsome : (s.requests.lookup request).isSome
    · simpa [step, hsome] using h
    · have hnone : s.requests.lookup request = none := by simpa using hsome
      simpa [step, hnone] using acquire_balanced h hnone account
  | proceed request =>
    cases hq : s.requests.lookup request with
    | none => simpa [step, hq] using h
    | some q =>
      obtain ⟨account, phase⟩ := q
      cases phase with
      | gotGlobal => simpa [step, hq] using acquireAccount_balanced h hq
      | waitingGlobal | waitingAccount | admitted => simpa [step, hq] using h
  | leave request =>
    cases hq : s.requests.lookup request with
    | none => simpa [step, hq] using h
    | some q => simpa [step, hq] using drop_balanced h hq

theorem run_balanced (h : s.Balanced globalLimit) (events : List AdmissionEvent) :
    (s.run events).Balanced globalLimit := by
  induction events generalizing s with
  | nil => exact h
  | cons ev events ih => exact ih (step_balanced h ev)

/-! ## What the two permits bound -/

@[simp] theorem perAccountLimit_releaseGlobal (s : UploadAdmission) :
    s.releaseGlobal.perAccountLimit = s.perAccountLimit := rfl

theorem perAccountLimit_releaseAccount (s : UploadAdmission) (account : Uuid) :
    (s.releaseAccount account).perAccountLimit = s.perAccountLimit := by
  unfold releaseAccount
  split <;> rfl

theorem perAccountLimit_step (s : UploadAdmission) (ev : AdmissionEvent) :
    (s.step ev).perAccountLimit = s.perAccountLimit := by
  cases ev with
  | acquire request account =>
    simp only [step]
    split <;> rfl
  | proceed request =>
    simp only [step]
    split
    · unfold acquireAccount
      split <;> rfl
    · rfl
  | leave request =>
    simp only [step]
    split
    · unfold drop
      split
      · rfl
      · rfl
      · rfl
      · rw [perAccountLimit_releaseAccount]
        rfl
    · rfl

theorem perAccountLimit_run (s : UploadAdmission) (events : List AdmissionEvent) :
    (s.run events).perAccountLimit = s.perAccountLimit := by
  induction events generalizing s with
  | nil => rfl
  | cons ev events ih =>
    have hstep := ih (s.step ev)
    rw [perAccountLimit_step] at hstep
    exact hstep

/-- In every run, the requests that have been let through are as few as both limits say. -/
theorem admitted_bounded (globalLimit perAccountLimit : Nat) (events : List AdmissionEvent) :
    (among ((new globalLimit perAccountLimit).run events).requests holdsGlobal).card ≤
        globalLimit ∧
      ∀ account, (among ((new globalLimit perAccountLimit).run events).requests
        (isAdmitted account)).card ≤ perAccountLimit := by
  have hbalanced := run_balanced (new_balanced globalLimit perAccountLimit) events
  refine ⟨hbalanced.global.card_le, fun account => ?_⟩
  by_cases hempty : among ((new globalLimit perAccountLimit).run events).requests
      (isAdmitted account) = ∅
  · rw [hempty]
    exact Nat.zero_le _
  · obtain ⟨r, hr⟩ := Finset.nonempty_iff_ne_empty.mpr hempty
    obtain ⟨q, hq, hadmitted⟩ := mem_among.mp hr
    obtain ⟨sem, hsem⟩ := hbalanced.present r q hq
    have haccount : q.account = account ∧ q.phase = .admitted := by
      simpa [isAdmitted] using hadmitted
    rw [haccount.1] at hsem
    have hserves := hbalanced.accounts account sem hsem
    rw [perAccountLimit_run] at hserves
    exact hserves.card_le

theorem heldBy_card_le_global (h : s.Balanced globalLimit) (account : Uuid) :
    (s.heldBy account).card ≤ globalLimit := by
  have hsub : s.heldBy account ⊆ among s.requests holdsGlobal := by
    apply among_mono
    intro q hq
    rw [Bool.and_eq_true] at hq
    exact hq.2
  exact (Finset.card_le_card hsub).trans h.global.card_le

/-- Whoever holds a permit is in progress. -/
theorem heldBy_subset_inProgress (s : UploadAdmission) (account : Uuid) :
    s.heldBy account ⊆ s.inProgress account := by
  apply among_mono
  intro q hq
  rw [Bool.and_eq_true] at hq
  exact hq.1

/-- A request comes in by an `acquire` only. -/
theorem step_requests (s : UploadAdmission) (ev : AdmissionEvent) {r : Nat}
    {q' : AdmissionTicket} (hq' : (s.step ev).requests.lookup r = some q') :
    (∃ q, s.requests.lookup r = some q ∧ q.account = q'.account) ∨
      ev = .acquire r q'.account := by
  cases ev with
  | acquire request account =>
    simp only [step] at hq'
    split at hq'
    · exact .inl ⟨q', hq', rfl⟩
    · change (s.requests.insert request _).lookup r = some q' at hq'
      rw [Table.lookup_insert_eq] at hq'
      by_cases heq : r = request
      · rw [if_pos heq] at hq'
        cases hq'
        exact .inr (by rw [heq])
      · rw [if_neg heq] at hq'
        exact .inl ⟨q', hq', rfl⟩
  | proceed request =>
    left
    simp only [step] at hq'
    split at hq'
    · rename_i account hq
      exact rephased_acquireAccount hq r q' hq'
    · exact ⟨q', hq', rfl⟩
  | leave request =>
    left
    simp only [step] at hq'
    split at hq'
    · rename_i q hq
      have hdrop : Rephased s.requests (s.drop request q).requests := by
        apply (rephased_erase request).trans
        unfold drop
        cases q.phase with
        | waitingGlobal => exact .refl _
        | gotGlobal => exact rephased_releaseGlobal _
        | waitingAccount => exact rephased_releaseGlobal _
        | admitted => exact (rephased_releaseGlobal _).trans (rephased_releaseAccount _ _)
      exact hdrop r q' hq'
    · exact ⟨q', hq', rfl⟩

/-- No `acquire` of an account comes while the account has all it may have in progress. -/
def Spaced (s : UploadAdmission) (events : List AdmissionEvent) : Prop :=
  ∀ before request account after, events = before ++ .acquire request account :: after →
    ((s.run before).inProgress account).card < s.perAccountLimit

theorem step_inProgress (s : UploadAdmission) (ev : AdmissionEvent) (account : Uuid)
    (hev : ∀ r, ev = .acquire r account → (s.inProgress account).card < s.perAccountLimit)
    (h : (s.inProgress account).card ≤ s.perAccountLimit) :
    ((s.step ev).inProgress account).card ≤ s.perAccountLimit := by
  by_cases hacquire : ∃ r, ev = .acquire r account
  · obtain ⟨r, rfl⟩ := hacquire
    have hsub : (s.step (.acquire r account)).inProgress account ⊆
        insert r (s.inProgress account) := by
      intro r' hr'
      obtain ⟨q', hq', haccount'⟩ := mem_among.mp hr'
      rw [Finset.mem_insert]
      rcases step_requests s _ hq' with ⟨q, hq, haccount⟩ | heq
      · exact .inr (mem_among.mpr ⟨q, hq, haccount ▸ haccount'⟩)
      · cases heq
        exact .inl rfl
    have hcard := Finset.card_insert_le r (s.inProgress account)
    have hroom := hev r rfl
    have hle := Finset.card_le_card hsub
    omega
  · have hsub : (s.step ev).inProgress account ⊆ s.inProgress account := by
      intro r' hr'
      obtain ⟨q', hq', haccount'⟩ := mem_among.mp hr'
      rcases step_requests s ev hq' with ⟨q, hq, haccount⟩ | heq
      · exact mem_among.mpr ⟨q, hq, haccount ▸ haccount'⟩
      · have hsame : q'.account = account := by simpa using haccount'
        exact absurd ⟨r', hsame ▸ heq⟩ hacquire
    exact (Finset.card_le_card hsub).trans h

theorem Spaced.inProgress_le {s : UploadAdmission} {events : List AdmissionEvent}
    (hspaced : s.Spaced events) (account : Uuid)
    (h : (s.inProgress account).card ≤ s.perAccountLimit) :
    ((s.run events).inProgress account).card ≤ s.perAccountLimit := by
  induction events generalizing s with
  | nil => exact h
  | cons ev events ih =>
    have hstep := step_inProgress s ev account
      (fun r hr => hspaced [] r account events (by rw [hr]; rfl)) h
    have hlimit := perAccountLimit_step s ev
    rw [← hlimit] at hstep ⊢
    refine ih (fun before request other after heq => ?_) hstep
    rw [hlimit]
    exact hspaced (ev :: before) request other after (by rw [heq]; rfl)

/-- Requests of one account that come while there are global permits get them all. -/
theorem run_acquires (globalLimit perAccountLimit : Nat) (account : Uuid) :
    ∀ k ≤ globalLimit,
      ((new globalLimit perAccountLimit).run
        ((List.range k).map (.acquire · account))).globalPermits = ⟨globalLimit - k, []⟩ ∧
      ∀ r, ((new globalLimit perAccountLimit).run
          ((List.range k).map (.acquire · account))).requests.lookup r =
        if r < k then some ⟨account, .gotGlobal⟩ else none := by
  intro k
  induction k with
  | zero =>
    intro _
    exact ⟨rfl, fun r => rfl⟩
  | succ k ih =>
    intro hk
    obtain ⟨hglobal, hrequests⟩ := ih (Nat.le_of_succ_le hk)
    rw [List.range_succ, List.map_append, run, List.foldl_append]
    change ((run _ _).step (.acquire k account)).globalPermits = _ ∧
      ∀ r, ((run _ _).step (.acquire k account)).requests.lookup r = _
    generalize (new globalLimit perAccountLimit).run
      ((List.range k).map (.acquire · account)) = s at hglobal hrequests ⊢
    have hnone : s.requests.lookup k = none := by simp [hrequests k]
    have hpermits : 0 < s.globalPermits.permits := by
      rw [hglobal]
      exact Nat.sub_pos_of_lt hk
    have hstate : s.step (.acquire k account) = s.acquire k account := by simp [step, hnone]
    rw [hstate]
    constructor
    · simp only [acquire, Semaphore.acquire, hglobal]
      have hpos : 0 < globalLimit - k := Nat.sub_pos_of_lt hk
      simp only [hpos, if_true]
      rw [Nat.sub_sub]
    · intro r
      simp only [acquire, Semaphore.acquire, hpermits, if_true, Table.lookup_insert_eq,
        hrequests r]
      by_cases heq : r = k
      · simp [heq]
      · have hlt : r < k + 1 ↔ r < k := by omega
        simp [heq, hlt]

theorem heldBy_acquires {globalLimit perAccountLimit k : Nat} (account : Uuid)
    (hk : k ≤ globalLimit) :
    (((new globalLimit perAccountLimit).run
      ((List.range k).map (.acquire · account))).heldBy account).card = k := by
  obtain ⟨-, hrequests⟩ := run_acquires globalLimit perAccountLimit account k hk
  have hset : ((new globalLimit perAccountLimit).run
      ((List.range k).map (.acquire · account))).heldBy account = Finset.range k := by
    ext r
    rw [Finset.mem_range]
    constructor
    · intro hr
      obtain ⟨q, hq, -⟩ := mem_among.mp hr
      rw [hrequests r] at hq
      by_cases hlt : r < k
      · exact hlt
      · simp [hlt] at hq
    · intro hr
      exact mem_among.mpr ⟨⟨account, .gotGlobal⟩, by rw [hrequests r, if_pos hr],
        by simp [holdsGlobal]⟩
  rw [hset, Finset.card_range]

/-- One account is kept to its limit of global permits in every run only when that is all there
are; otherwise in the runs in which it never has more than that many requests in progress. -/
theorem account_bounded_iff {globalLimit perAccountLimit : Nat}
    (hle : perAccountLimit ≤ globalLimit) :
    ((∀ events account, (((new globalLimit perAccountLimit).run events).heldBy account).card ≤
        perAccountLimit) ↔ perAccountLimit = globalLimit) ∧
      ∀ events, (new globalLimit perAccountLimit).Spaced events →
        ∀ account, (((new globalLimit perAccountLimit).run events).heldBy account).card ≤
          perAccountLimit := by
  refine ⟨⟨fun hall => ?_, fun heq events account => ?_⟩, fun events hspaced account => ?_⟩
  · by_contra hne
    have hlt : perAccountLimit + 1 ≤ globalLimit := by omega
    have hheld := hall ((List.range (perAccountLimit + 1)).map (.acquire · 0)) 0
    rw [heldBy_acquires 0 hlt] at hheld
    omega
  · rw [heq]
    exact heldBy_card_le_global (run_balanced (new_balanced _ _) events) account
  · have hstart : ((new globalLimit perAccountLimit).inProgress account).card ≤
        (new globalLimit perAccountLimit).perAccountLimit := Nat.zero_le _
    exact (Finset.card_le_card (heldBy_subset_inProgress _ account)).trans
      (hspaced.inProgress_le account hstart)

theorem account_bounded_iff_sample :
    ¬∀ events account, (((new 16 4).run events).heldBy account).card ≤ 4 := by
  intro hall
  have heq := (account_bounded_iff (by decide : 4 ≤ 16)).1.mp hall
  cases heq

set_option maxRecDepth 10000 in
/-- Sixteen requests of one account, four of which may be admitted, leave nothing to another. -/
theorem one_account_takes_all :
    let s := (new 16 4).run
      ((List.range 16).map (.acquire · 1) ++ (List.range 16).map .proceed ++ [.acquire 16 2])
    (s.heldBy 1).card = 16 ∧ s.globalPermits = ⟨0, [16]⟩ ∧
      (among s.requests (isAdmitted 1)).card = 4 := by
  decide +kernel

end UploadAdmission

end MediaBackup
