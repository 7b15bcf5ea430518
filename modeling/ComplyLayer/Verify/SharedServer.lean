import ComplyLayer.Velocity.SharedServer
import ComplyLayer.Verify.VelocityThreshold

/-!
# Parties that share the server

The calls for one customer, or of one visitor of the dashboard, are on keys of their own. However
the transactions of all calls interleave, a party is answered as if the others made no call.
-/

namespace ComplyLayer

open Theory Redis

/-- The code a call burns. -/
def RedisCall.code? : RedisCall → Option String
  | consumeCode _ code => some code
  | _ => none

namespace Party

/-- The keys of the calls for a party that tries these codes. -/
def Keys (codes : String → Prop) : Party → String → Prop
  | customer velocity, key =>
    key = velocity.membersKey ∨ key = velocity.amountsKey ∨ key = velocity.aggregatesKey
  | visitor throttle, key =>
    key = throttle.key ∨ ∃ code, codes code ∧ key = throttle.replayKey code

/-- Two customers whose hashes are equally long, or two visitors whose digests do not collide on
what they send. -/
def Apart (codes codes' : String → Prop) : Party → Party → Prop
  | customer velocity, customer velocity' =>
    velocity ≠ velocity' ∧ velocity.customerHash.length = velocity'.customerHash.length
  | visitor throttle, visitor throttle' =>
    (throttle.view ≠ throttle'.view ∨
      throttle.digest throttle.identity ≠ throttle'.digest throttle'.identity) ∧
    ∀ code code', codes code → codes' code' →
      throttle.digest (throttle.identity ++ ":" ++ code) ≠
        throttle'.digest (throttle'.identity ++ ":" ++ code')
  | _, _ => True

end Party

/-! ## Whose key it is -/

/-- The tenant and the hash are what a key has after its prefix. -/
theorem velocity_eq_of_append {velocity velocity' : RedisVelocity}
    (hlength : velocity.customerHash.length = velocity'.customerHash.length)
    (h : velocity.tenantId ++ ":" ++ velocity.customerHash =
      velocity'.tenantId ++ ":" ++ velocity'.customerHash) : velocity = velocity' := by
  have hlist := congrArg String.toList h
  simp only [String.toList_append] at hlist
  rw [← String.length_toList, ← String.length_toList] at hlength
  obtain ⟨htenant, hhash⟩ := List.append_inj' hlist hlength
  have htenant' := List.append_cancel_right htenant
  cases velocity
  cases velocity'
  simp only [RedisVelocity.mk.injEq]
  exact ⟨String.toList_inj.mp htenant', String.toList_inj.mp hhash⟩

variable {codes codes' : String → Prop}

theorem customer_keys_apart {velocity velocity' : RedisVelocity} (hne : velocity ≠ velocity')
    (hlength : velocity.customerHash.length = velocity'.customerHash.length)
    (hkey : (Party.customer velocity).Keys codes key) :
    ¬(Party.customer velocity').Keys codes' key := by
  intro hkey'
  have hsame (h : (velocity.tenantId ++ ":" ++ velocity.customerHash).toList =
      (velocity'.tenantId ++ ":" ++ velocity'.customerHash).toList) : False :=
    hne (velocity_eq_of_append hlength (String.toList_inj.mp h))
  obtain rfl | rfl | rfl := hkey <;> obtain h | h | h := hkey' <;>
    (have hlist := congrArg String.toList h
     simp only [RedisVelocity.toList_membersKey, RedisVelocity.toList_amountsKey,
       RedisVelocity.toList_aggregatesKey, List.cons.injEq] at hlist)
  all_goals first
    | exact hsame hlist.2.2
    | exact hsame hlist.2.2.2
    | simp at hlist

theorem toList_throttle_key (throttle : Throttle) : throttle.key.toList =
    "cl:throttle:".toList ++ (throttle.view.scope.toList ++
      ':' :: (throttle.digest throttle.identity).toList) := by
  simp [Throttle.key]

theorem toList_replayKey (throttle : Throttle) (code : String) :
    (throttle.replayKey code).toList =
      "cl:otp:".toList ++ (throttle.digest (throttle.identity ++ ":" ++ code)).toList := by
  simp [Throttle.replayKey]

theorem throttle_key_inj {throttle throttle' : Throttle} (h : throttle.key = throttle'.key) :
    throttle.view = throttle'.view ∧
      throttle.digest throttle.identity = throttle'.digest throttle'.identity := by
  have hlist := congrArg String.toList h
  rw [toList_throttle_key, toList_throttle_key] at hlist
  have hrest := List.append_cancel_left hlist
  cases hview : throttle.view <;> cases hview' : throttle'.view <;>
    simp [hview, hview', View.scope] at hrest ⊢
  all_goals exact String.toList_inj.mp hrest

theorem visitor_keys_apart {throttle throttle' : Throttle}
    (h : (Party.visitor throttle).Apart codes codes' (.visitor throttle'))
    (hkey : (Party.visitor throttle).Keys codes key) :
    ¬(Party.visitor throttle').Keys codes' key := by
  intro hkey'
  obtain rfl | ⟨code, hcode, rfl⟩ := hkey <;> obtain hsame | ⟨code', hcode', hsame⟩ := hkey'
  · obtain ⟨hview, hdigest⟩ := throttle_key_inj hsame
    exact h.1.elim (absurd hview) (absurd hdigest)
  · have hlist := congrArg String.toList hsame
    rw [toList_throttle_key, toList_replayKey] at hlist
    simp at hlist
  · have hlist := congrArg String.toList hsame
    rw [toList_throttle_key, toList_replayKey] at hlist
    simp at hlist
  · have hlist := congrArg String.toList hsame
    rw [toList_replayKey, toList_replayKey] at hlist
    exact h.2 code code' hcode hcode' (String.toList_inj.mp (List.append_cancel_left hlist))

theorem customer_key_ne_visitor {velocity : RedisVelocity} {throttle : Throttle}
    (hkey : (Party.customer velocity).Keys codes key) :
    ¬(Party.visitor throttle).Keys codes' key := by
  intro hkey'
  obtain rfl | rfl | rfl := hkey <;> obtain h | ⟨code, -, h⟩ := hkey' <;>
    (have hlist := congrArg String.toList h
     simp [RedisVelocity.toList_membersKey, RedisVelocity.toList_amountsKey,
       RedisVelocity.toList_aggregatesKey, toList_throttle_key, toList_replayKey] at hlist)

theorem Party.Apart.keys {party party' : Party} (h : party.Apart codes codes' party')
    (hkey : party.Keys codes key) : ¬party'.Keys codes' key := by
  cases party with
  | customer velocity =>
    cases party' with
    | customer velocity' => exact customer_keys_apart h.1 h.2 hkey
    | visitor throttle' => exact customer_key_ne_visitor hkey
  | visitor throttle =>
    cases party' with
    | customer velocity' => exact fun hkey' => customer_key_ne_visitor hkey' hkey
    | visitor throttle' => exact visitor_keys_apart h hkey

/-! ## A call is on the keys of its party -/

theorem within_fetchProgram (py : Python) (velocity : RedisVelocity) (moment : ℚ)
    (record : Option Recorded) :
    (velocity.fetchProgram py moment record).Within ((Party.customer velocity).Keys codes) := by
  refine ⟨fun command hcommand => ?_, fun _ => trivial⟩
  cases record <;>
    simp only [RedisVelocity.fetchCommands, RedisVelocity.recordCommands, Option.map_none,
      Option.map_some, Option.getD_none, Option.getD_some, List.cons_append, List.nil_append,
      List.mem_cons, List.not_mem_nil, or_false] at hcommand <;>
    rcases hcommand with rfl | rfl | rfl | rfl | rfl | rfl | rfl | rfl | rfl | rfl | rfl | rfl | rfl
  all_goals simp [Party.Keys, Command.key]

theorem within_lockoutAfter (throttle : Throttle) (raw : Reply) :
    (throttle.lockoutAfter raw).Within ((Party.visitor throttle).Keys codes) := by
  have hkey : (Party.visitor throttle).Keys codes throttle.key := .inl rfl
  unfold Throttle.lockoutAfter
  split
  · trivial
  · split
    · trivial
    · split
      · trivial
      · refine ⟨fun command hcommand => ?_, fun replies => ?_⟩
        · rw [List.mem_singleton.mp hcommand]
          exact hkey
        · beta_reduce
          split <;> trivial

theorem within_failureProgram (throttle : Throttle) :
    throttle.failureProgram.Within ((Party.visitor throttle).Keys codes) := by
  have hkey : (Party.visitor throttle).Keys codes throttle.key := .inl rfl
  refine ⟨fun command hcommand => ?_, fun replies => ?_⟩
  · rw [List.mem_singleton.mp hcommand]
    exact hkey
  · beta_reduce
    split
    · split
      all_goals
        refine ⟨fun command hcommand => ?_, fun _ => trivial⟩
        rw [List.mem_singleton.mp hcommand]
        exact hkey
    · trivial

theorem within_program (py : Python) (call : RedisCall) (hcodes : ∀ code ∈ call.code?, codes code) :
    (call.program py).Within (call.party.Keys codes) := by
  cases call with
  | gather velocity moment => exact within_fetchProgram py velocity moment none
  | recordAndGather velocity t moment => exact within_fetchProgram py velocity moment (some t)
  | noteFlagged velocity =>
    refine ⟨fun command hcommand => ?_, fun _ => trivial⟩
    rw [List.mem_singleton.mp hcommand]
    exact .inr (.inr rfl)
  | lockoutSeconds throttle =>
    refine ⟨fun command hcommand => ?_, fun replies => ?_⟩
    · rw [List.mem_singleton.mp hcommand]
      exact .inl rfl
    · beta_reduce
      split
      · exact within_lockoutAfter throttle _
      · trivial
  | recordFailure throttle => exact within_failureProgram throttle
  | clear throttle =>
    refine ⟨fun command hcommand => ?_, fun _ => trivial⟩
    rw [List.mem_singleton.mp hcommand]
    exact .inl rfl
  | consumeCode throttle code =>
    refine ⟨fun command hcommand => ?_, fun replies => ?_⟩
    · rw [List.mem_singleton.mp hcommand]
      exact .inr ⟨code, hcodes code rfl, rfl⟩
    · beta_reduce
      split <;> trivial

/-! ## Every interleaving -/

section
variable (py : Python) (parties : Nat → Party) (codes : Nat → String → Prop) (own : Party → Bool)

/-- Time goes on, and a request makes the calls for its party, with codes of its own. -/
def ProperTurn : Turn Nat RedisAnswer → Prop
  | .elapse seconds => 0 ≤ seconds
  | .call i program => ∃ call : RedisCall, call.party = parties i ∧
      (∀ code ∈ call.code?, codes i code) ∧ program = call.program py
  | .send _ => True

/-- The keys of the own parties. -/
def OwnKeys (key : String) : Prop :=
  ∃ i, own (parties i) = true ∧ (parties i).Keys (codes i) key

variable {py parties codes own}

theorem ProperTurn.keeps {turn : Turn Nat RedisAnswer} (hturn : ProperTurn py parties codes turn)
    (hapart : ∀ i j, own (parties i) = true → own (parties j) = false →
      (parties i).Apart (codes i) (codes j) (parties j)) :
    turn.Keeps (fun i => own (parties i)) (OwnKeys parties codes own) := by
  cases turn with
  | elapse seconds => exact hturn
  | send i => trivial
  | call i program =>
    obtain ⟨call, hparty, hcodes, rfl⟩ := hturn
    have hwithin := within_program py call hcodes
    rw [hparty] at hwithin
    refine hwithin.imp fun key hkey => ?_
    split
    case isTrue hown => exact ⟨i, hown, hkey⟩
    case isFalse hown =>
      rintro ⟨j, hj, hkey'⟩
      exact (hapart j i hj (Bool.eq_false_iff.mpr hown)).keys hkey' hkey

/-- **Parties do not notice each other.** The calls of some of the parties are answered, and leave
their keys, as if no other party made a call. -/
theorem parties_apart (hapart : ∀ i j, own (parties i) = true → own (parties j) = false →
      (parties i).Apart (codes i) (codes j) (parties j))
    (turns : List (Turn Nat RedisAnswer))
    (hturns : ∀ turn ∈ turns, ProperTurn py parties codes turn) (server : Server) :
    let mine : Nat → Bool := fun i => own (parties i)
    let all := Shared.run { server := server } turns
    let alone := Shared.run { server := server } (turns.filter (Turn.mine mine))
    all.answers.filter (fun answer => mine answer.1) = alone.answers ∧
      (∀ i, mine i = true → all.running i = alone.running i) ∧
      ∀ i key, mine i = true → (parties i).Keys (codes i) key →
        all.server.find? key = alone.server.find? key := by
  have hown := Shared.run_own (fun turn hturn => (hturns turn hturn).keeps hapart) server
  refine ⟨hown.answers.symm, fun i hi => (hown.running i hi).symm, fun i key hi hkey => ?_⟩
  exact hown.server.keys key ⟨i, hi, hkey⟩

end

/-! A customer of two tenants with the same hash, and two visitors of the dashboard. -/

/-- The digests of the two users, and of a code of theirs. -/
def userDigest : String → String
  | "7" => "7902699be42c8a8e46fbbb4501726517"
  | "8" => "2c624232cdd221771294dfbb310aca00"
  | "7:123456" => "aae29dd5b17260606d7de5fd58d97b68"
  | _ => "3f482053daac51dd3adb181c14f1e904"

def fourParties : Nat → Party
  | 0 => .customer ⟨"ten_1", "5c4d"⟩
  | 1 => .customer ⟨"ten_2", "5c4d"⟩
  | 2 => .visitor ⟨userDigest, .verify, "7"⟩
  | _ => .visitor ⟨userDigest, .verify, "8"⟩

/-- Every request that tries a code tries this one. -/
def sameCode (_ : Nat) (code : String) : Prop := code = "123456"

def firstOfEach : Party → Bool
  | .customer velocity => velocity.tenantId = "ten_1"
  | .visitor throttle => throttle.identity = "7"

def sharedTurns (py : Python) : List (Turn Nat RedisAnswer) :=
  [.call 0 ((RedisCall.recordAndGather ⟨"ten_1", "5c4d"⟩ ⟨"tx_1", 500, "transfer"⟩ 10).program py),
    .call 1 ((RedisCall.recordAndGather ⟨"ten_2", "5c4d"⟩ ⟨"tx_1", 900, "transfer"⟩ 10).program py),
    .send 1, .call 3 ((RedisCall.consumeCode ⟨userDigest, .verify, "8"⟩ "123456").program py),
    .call 2 ((RedisCall.consumeCode ⟨userDigest, .verify, "7"⟩ "123456").program py), .send 3,
    .elapse 5, .send 0, .send 2]

theorem parties_apart_fourParties :
    let mine : Nat → Bool := fun i => firstOfEach (fourParties i)
    ((Shared.run { server := {} } (sharedTurns clockPython)).answers.filter fun answer =>
        mine answer.1) =
      (Shared.run { server := {} }
        ((sharedTurns clockPython).filter (Turn.mine mine))).answers := by
  have hapart : ∀ i j, firstOfEach (fourParties i) = true → firstOfEach (fourParties j) = false →
      (fourParties i).Apart (sameCode i) (sameCode j) (fourParties j) := by
    intro i j hi hj
    match i, j with
    | 0, 1 => exact ⟨by simp, rfl⟩
    | 2, n + 3 =>
      refine ⟨.inr (by decide), ?_⟩
      rintro _ _ rfl rfl
      decide
    | 0, 2 | 0, n + 3 | 2, 1 => trivial
    | 0, 0 | 2, 2 | 2, 0 => cases hj
    | 1, _ | n + 3, _ => cases hi
  have hturns : ∀ turn ∈ sharedTurns clockPython,
      ProperTurn clockPython fourParties sameCode turn := by
    have hnone {call : RedisCall} (h : call.code? = none) (i : Nat) :
        ∀ code ∈ call.code?, sameCode i code := by
      intro code hcode
      rw [h] at hcode
      cases hcode
    have hone (throttle : Throttle) (i : Nat) :
        ∀ code ∈ (RedisCall.consumeCode throttle "123456").code?, sameCode i code :=
      fun code hcode => (Option.mem_some_iff.mp hcode).symm
    simp only [sharedTurns, List.forall_mem_cons]
    exact ⟨⟨_, rfl, hnone rfl 0, rfl⟩, ⟨_, rfl, hnone rfl 1, rfl⟩, trivial,
      ⟨_, rfl, hone _ 3, rfl⟩, ⟨_, rfl, hone _ 2, rfl⟩, trivial, (by decide : (0 : ℚ) ≤ 5), trivial,
      trivial, by simp⟩
  exact (parties_apart hapart _ hturns {}).1

end ComplyLayer
