import ComplyLayer.Theory.Redis

/-!
# The clients of a Redis server

A client sends commands, which run in one transaction, and goes on from the replies. Between two
of its transactions there may be those of others. Clients that keep to keys of their own are
served as if they were alone (`Shared.run_own`).
-/

namespace ComplyLayer.Theory.Redis

/-- What a client does, up to its answer. -/
inductive Program (Answer : Type) where
  | done (answer : Answer)
  | send (commands : List Command) (next : List Reply → Program Answer)

namespace Program

variable {Answer : Type}

/-- Nobody comes between its transactions. -/
def alone (r : Server) : Program Answer → Server × Answer
  | .done answer => (r, answer)
  | .send commands next =>
    let (r', replies) := r.transaction commands
    (next replies).alone r'

/-- Its commands are on these keys. -/
def Within (K : String → Prop) : Program Answer → Prop
  | .done _ => True
  | .send commands next => (∀ command ∈ commands, K command.key) ∧
    ∀ replies, (next replies).Within K

theorem Within.imp {K K' : String → Prop} (himp : ∀ key, K key → K' key) {p : Program Answer}
    (h : p.Within K) : p.Within K' := by
  induction p with
  | done _ => trivial
  | send commands next ih =>
    exact ⟨fun command hcommand => himp _ (h.1 command hcommand), fun replies => ih _ (h.2 replies)⟩

end Program

/-- A server, the programs that clients are in, and their answers so far. -/
structure Shared (ι Answer : Type) where
  server : Server
  running : ι → Option (Program Answer) := fun _ => none
  answers : List (ι × Answer) := []

inductive Turn (ι Answer : Type) where
  | elapse (seconds : ℚ)
  /-- A client begins a program; one that it was in is given up. -/
  | call (i : ι) (program : Program Answer)
  /-- The next transaction of a client. -/
  | send (i : ι)

variable {ι Answer : Type}

namespace Turn

/-- Time is everybody's. -/
def mine (own : ι → Bool) : Turn ι Answer → Bool
  | elapse _ => true
  | call i _ | send i => own i

/-- Time goes on, and the clients that are not `own` keep off the keys that are. -/
def Keeps (own : ι → Bool) (K : String → Prop) : Turn ι Answer → Prop
  | elapse seconds => 0 ≤ seconds
  | call i program => program.Within fun key => if own i then K key else ¬K key
  | send _ => True

end Turn

namespace Shared

variable [DecidableEq ι]

/-- A client goes on, or answers. -/
def resume (s : Shared ι Answer) (i : ι) : Program Answer → Shared ι Answer
  | .done answer =>
    { s with running := Function.update s.running i none, answers := s.answers ++ [(i, answer)] }
  | program => { s with running := Function.update s.running i (some program) }

def step (s : Shared ι Answer) : Turn ι Answer → Shared ι Answer
  | .elapse seconds => { s with server := s.server.elapse seconds }
  | .call i program => s.resume i program
  | .send i =>
    match s.running i with
    | some (.send commands next) =>
      let (server, replies) := s.server.transaction commands
      Shared.resume { s with server := server } i (next replies)
    | _ => s

def run (s : Shared ι Answer) (turns : List (Turn ι Answer)) : Shared ι Answer := turns.foldl step s

end Shared

/-! ## What a command depends on -/

/-- The servers are the same as far as these keys go. -/
structure Server.Agrees (K : String → Prop) (r r' : Server) : Prop where
  now : r.now = r'.now
  keys : ∀ key, K key → r.find? key = r'.find? key

theorem Server.Agrees.refl (K : String → Prop) (r : Server) : r.Agrees K r := ⟨rfl, fun _ _ => rfl⟩

theorem Server.Agrees.trans {K : String → Prop} {r r' r'' : Server} (h : r.Agrees K r')
    (h' : r'.Agrees K r'') : r.Agrees K r'' :=
  ⟨h.now.trans h'.now, fun key hkey => (h.keys key hkey).trans (h'.keys key hkey)⟩

section
variable {r r' : Server} {K : String → Prop}

/-- A command writes and says the same where its key holds the same. -/
theorem exec_congr {command : Command} (hnow : r.now = r'.now)
    (hfind : r.find? command.key = r'.find? command.key) :
    (r.exec command).2 = (r'.exec command).2 ∧
      ((r.exec command).1 = r ∧ (r'.exec command).1 = r' ∨
        ∃ entry, (r.exec command).1 = r.set command.key entry ∧
          (r'.exec command).1 = r'.set command.key entry) := by
  have hhash : r.hash? command.key = r'.hash? command.key := Server.hash?_congr hfind
  have hscores : r.sortedSet? command.key = r'.sortedSet? command.key :=
    Server.sortedSet?_congr hfind
  have hdeadline : r.deadline? command.key = r'.deadline? command.key := by
    rw [Server.deadline?, Server.deadline?, hfind]
  cases command
  all_goals
    simp only [Command.key] at hfind hhash hscores hdeadline
    simp only [Server.exec, Server.write, hfind, hhash, hscores, hdeadline, hnow]
    repeat' split
  all_goals first
    | exact ⟨by trivial, .inl ⟨rfl, rfl⟩⟩
    | exact ⟨by trivial, .inr ⟨_, rfl, rfl⟩⟩

theorem Server.Agrees.exec {command : Command} (h : r.Agrees K r') (hkey : K command.key) :
    (r.exec command).2 = (r'.exec command).2 ∧
      (r.exec command).1.Agrees K (r'.exec command).1 := by
  obtain ⟨hreply, ⟨hr, hr'⟩ | ⟨entry, hr, hr'⟩⟩ := exec_congr h.now (h.keys _ hkey)
  · rw [hr, hr']
    exact ⟨hreply, h⟩
  · rw [hr, hr']
    refine ⟨hreply, h.now, fun key hk => ?_⟩
    by_cases hsame : key = command.key
    · subst hsame
      rw [(r.writes_set command.key entry).self, (r'.writes_set command.key entry).self, h.now]
    · rw [(r.writes_set command.key entry).others key hsame,
        (r'.writes_set command.key entry).others key hsame]
      exact h.keys key hk

theorem Server.Agrees.transaction {commands : List Command} (h : r.Agrees K r')
    (hkeys : ∀ command ∈ commands, K command.key) :
    (r.transaction commands).2 = (r'.transaction commands).2 ∧
      (r.transaction commands).1.Agrees K (r'.transaction commands).1 := by
  induction commands generalizing r r' with
  | nil => exact ⟨rfl, h⟩
  | cons command rest ih =>
    obtain ⟨hkey, hrest⟩ := List.forall_mem_cons.mp hkeys
    obtain ⟨hreply, hexec⟩ := h.exec hkey
    obtain ⟨hreplies, hafter⟩ := ih hexec hrest
    simp only [Server.transaction]
    exact ⟨by rw [hreply, hreplies], hafter⟩

/-- Commands on other keys leave these as they are. -/
theorem Server.agrees_transaction {commands : List Command}
    (hkeys : ∀ command ∈ commands, ¬K command.key) (r : Server) :
    (r.transaction commands).1.Agrees K r := by
  induction commands generalizing r with
  | nil => exact .refl K r
  | cons command rest ih =>
    obtain ⟨hkey, hrest⟩ := List.forall_mem_cons.mp hkeys
    have hexec : (r.exec command).1.Agrees K r := by
      refine ⟨now_exec r command, fun key hk => find?_exec_of_ne ?_⟩
      rintro rfl
      exact hkey hk
    exact (ih hrest (r.exec command).1).trans hexec

theorem Server.Agrees.elapse (h : r.Agrees K r') (hseconds : 0 ≤ seconds) :
    (r.elapse seconds).Agrees K (r'.elapse seconds) := by
  refine ⟨?_, fun key hk => ?_⟩
  · simp only [Server.elapse, h.now]
  · rw [r.find?_elapse key hseconds, r'.find?_elapse key hseconds, h.keys key hk, h.now]

end

/-! ## Clients with keys of their own -/

namespace Shared

variable [DecidableEq ι] {own : ι → Bool} {K : String → Prop} {s t : Shared ι Answer}

/-- `t` is what the own clients make of `s`. -/
structure Own (own : ι → Bool) (K : String → Prop) (s t : Shared ι Answer) : Prop where
  server : s.server.Agrees K t.server
  running : ∀ i, own i = true → t.running i = s.running i
  answers : t.answers = s.answers.filter fun answer => own answer.1
  /-- Every client that is in a program keeps to its side. -/
  within : ∀ i program, s.running i = some program →
    program.Within fun key => if own i then K key else ¬K key

theorem resume_running_of_ne {i j : ι} (hij : j ≠ i) (s : Shared ι Answer)
    (program : Program Answer) : (s.resume i program).running j = s.running j := by
  cases program <;> exact Function.update_of_ne hij _ _

theorem server_resume (s : Shared ι Answer) (i : ι) (program : Program Answer) :
    (s.resume i program).server = s.server := by
  cases program <;> rfl

/-- A client that goes on keeps to its side. -/
theorem within_resume {i : ι} {program : Program Answer} (hs : ∀ j p, s.running j = some p →
      p.Within fun key => if own j then K key else ¬K key)
    (hprogram : program.Within fun key => if own i then K key else ¬K key) :
    ∀ j p, (s.resume i program).running j = some p →
      p.Within fun key => if own j then K key else ¬K key := by
  intro j p hp
  by_cases hij : j = i
  · subst hij
    cases program with
    | done answer => simp [resume] at hp
    | send commands next =>
      simp only [resume, Function.update_self, Option.some.injEq] at hp
      subst hp
      exact hprogram
  · rw [resume_running_of_ne hij] at hp
    exact hs j p hp

/-- An own client goes on in both. -/
theorem Own.resume_own {i : ι} {program : Program Answer} (h : Own own K s t) (hi : own i = true)
    (hprogram : program.Within fun key => if own i then K key else ¬K key) :
    Own own K (s.resume i program) (t.resume i program) where
  server := by
    rw [server_resume, server_resume]
    exact h.server
  running j hj := by
    by_cases hij : j = i
    · subst hij
      cases program <;> simp [resume]
    · rw [resume_running_of_ne hij, resume_running_of_ne hij]
      exact h.running j hj
  answers := by
    cases program with
    | done answer => simp [resume, h.answers, hi]
    | send commands next => exact h.answers
  within := within_resume h.within hprogram

/-- Another client goes on, and the own clients do not notice. -/
theorem Own.resume_other {i : ι} {program : Program Answer} (h : Own own K s t)
    (hi : own i = false) (hprogram : program.Within fun key => if own i then K key else ¬K key) :
    Own own K (s.resume i program) t where
  server := by
    rw [server_resume]
    exact h.server
  running j hj := by
    have hij : j ≠ i := by
      rintro rfl
      exact absurd (hj.symm.trans hi) (by decide)
    rw [resume_running_of_ne hij]
    exact h.running j hj
  answers := by
    cases program with
    | done answer => simp [resume, h.answers, hi]
    | send commands next => exact h.answers
  within := within_resume h.within hprogram

theorem step_send {i : ι} (h : s.running i = some (.send commands next)) :
    s.step (.send i) = Shared.resume { s with server := (s.server.transaction commands).1 } i
      (next (s.server.transaction commands).2) := by
  simp only [step, h]

theorem step_send_of_idle {i : ι} (h : ∀ commands next, s.running i ≠ some (.send commands next)) :
    s.step (.send i) = s := by
  cases hrunning : s.running i with
  | none => simp only [step, hrunning]
  | some program =>
    cases program with
    | done answer => simp only [step, hrunning]
    | send commands next => exact absurd hrunning (h commands next)

theorem Own.step {turn : Turn ι Answer} (h : Own own K s t) (hturn : turn.Keeps own K) :
    if turn.mine own then Own own K (s.step turn) (t.step turn)
    else Own own K (s.step turn) t := by
  cases turn with
  | elapse seconds => exact ⟨h.server.elapse hturn, h.running, h.answers, h.within⟩
  | call i program =>
    cases hi : own i with
    | true =>
      simp only [Turn.mine, hi, if_true]
      exact h.resume_own hi hturn
    | false =>
      simp only [Turn.mine, hi]
      exact h.resume_other hi hturn
  | send i =>
    by_cases hidle : ∀ commands next, s.running i ≠ some (.send commands next)
    · rw [step_send_of_idle hidle]
      split
      case isTrue hi =>
        rw [step_send_of_idle fun commands next => (h.running i hi).symm ▸ hidle commands next]
        exact h
      case isFalse => exact h
    · simp only [not_forall, not_not] at hidle
      obtain ⟨commands, next, hrunning⟩ := hidle
      obtain ⟨hcommands, hnext⟩ := h.within i _ hrunning
      rw [step_send hrunning]
      cases hi : own i with
      | true =>
        simp only [hi, if_true] at hcommands
        obtain ⟨hreplies, hserver⟩ := h.server.transaction hcommands
        have hafter : Own own K { s with server := (s.server.transaction commands).1 }
            { t with server := (t.server.transaction commands).1 } :=
          ⟨hserver, h.running, h.answers, h.within⟩
        simp only [Turn.mine, hi, if_true]
        rw [step_send ((h.running i hi).trans hrunning), ← hreplies]
        exact hafter.resume_own hi (hnext _)
      | false =>
        simp only [hi] at hcommands
        have hserver := (Server.agrees_transaction hcommands s.server).trans h.server
        have hafter : Own own K { s with server := (s.server.transaction commands).1 } t :=
          ⟨hserver, h.running, h.answers, h.within⟩
        simp only [Turn.mine, hi]
        exact hafter.resume_other hi (hnext _)

/-- **Served as if alone**: the own clients are answered as in the run without the others. -/
theorem Own.run {turns : List (Turn ι Answer)} (h : Own own K s t)
    (hturns : ∀ turn ∈ turns, turn.Keeps own K) :
    Own own K (s.run turns) (t.run (turns.filter (Turn.mine own))) := by
  induction turns generalizing s t with
  | nil => exact h
  | cons turn turns ih =>
    obtain ⟨hturn, hturns⟩ := List.forall_mem_cons.mp hturns
    have hstep := h.step hturn
    rw [List.filter_cons]
    split at hstep
    case isTrue hmine =>
      rw [if_pos hmine]
      exact ih hstep hturns
    case isFalse hmine =>
      rw [if_neg hmine]
      exact ih hstep hturns

theorem run_own {turns : List (Turn ι Answer)} (hturns : ∀ turn ∈ turns, turn.Keeps own K)
    (r : Server) :
    Own own K (Shared.run { server := r } turns)
      (Shared.run { server := r } (turns.filter (Turn.mine own))) := by
  refine Own.run ⟨.refl K r, fun _ _ => rfl, rfl, fun i program hrunning => ?_⟩ hturns
  cases hrunning

end Shared

end ComplyLayer.Theory.Redis
