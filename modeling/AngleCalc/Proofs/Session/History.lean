import AngleCalc.Session.Basic

/-!
# The history of a session

A session is used by calls, one after the other: evaluations, constants and numbers
of digits. The writes of a sequence of calls are the answers of the evaluations that
succeed and the constants that are bound. They determine the previous answer and
every constant of the user.

The previous answer is kept twice, on its own and as the constant `ans`. Both copies
agree until `ans` is bound to something else by hand, and from the next answer on.
-/

namespace AngleCalc

inductive Call where
  | evaluate (input : String)
  | addConstant (name : String) (value : Rat)
  | setDigits (digits : Nat)
deriving DecidableEq, Repr

/-- What a call leaves in a session: an answer, or a constant bound by hand. -/
inductive Write where
  | answer (value : Rat)
  | constant (name : String) (value : Rat)
deriving DecidableEq, Repr

namespace Write

/-- The constant that is written; an answer is written to the previous answer. -/
def name : Write -> String
  | answer _ => Session.answerName
  | constant name _ => name

def value : Write -> Rat
  | answer value => value
  | constant _ value => value

def answer? : Write -> Option Rat
  | answer value => some value
  | constant _ _ => none

@[simp] theorem name_answer (value : Rat) : (answer value).name = Session.answerName := rfl

@[simp] theorem name_constant (name : String) (value : Rat) : (constant name value).name = name :=
  rfl

@[simp] theorem answer?_answer (value : Rat) : (answer value).answer? = some value := rfl

@[simp] theorem answer?_constant (name : String) (value : Rat) :
    (constant name value).answer? = none :=
  rfl

def last? (name : String) (writes : List Write) : Option Write :=
  writes.reverse.find? (fun write => write.name == name)

def lastAnswer? (writes : List Write) : Option Rat :=
  writes.reverse.findSome? Write.answer?

theorem last?_append (name : String) (front back : List Write) :
    last? name (front ++ back) = (last? name back).or (last? name front) := by
  rw [last?, List.reverse_append, List.find?_append]
  rfl

theorem lastAnswer?_append (front back : List Write) :
    lastAnswer? (front ++ back) = (lastAnswer? back).or (lastAnswer? front) := by
  rw [lastAnswer?, List.reverse_append, List.findSome?_append]
  rfl

theorem lastAnswer?_of_last? (writes : List Write) :
    (last? Session.answerName writes = none -> lastAnswer? writes = none) ∧
      forall value, last? Session.answerName writes = some (.answer value) ->
        lastAnswer? writes = some value := by
  unfold last? lastAnswer?
  induction writes.reverse with
  | nil => simp
  | cons write rest ih =>
      cases write with
      | answer value => simp [List.findSome?_cons]
      | constant name value =>
          by_cases hname : name = Session.answerName
          · simp [hname]
          · simpa [hname, List.findSome?_cons] using ih

end Write

namespace Session

/-!
## Calls
-/

def boundName (name : String) : String :=
  String.ofList (Text.lowercase name.toList)

def perform (session : Session) : Call -> Session
  | .evaluate input => (session.evaluate input).2
  | .addConstant name value => session.addConstant name value
  | .setDigits digits => session.setDigits digits

def after (session : Session) : List Call -> Session
  | [] => session
  | call :: rest => (session.perform call).after rest

def writesOf (session : Session) : Call -> List Write
  | .evaluate input => (session.evaluate input).1.value.toList.map .answer
  | .addConstant name value => [.constant (boundName name) value]
  | .setDigits _ => []

def writes (session : Session) : List Call -> List Write
  | [] => []
  | call :: rest => session.writesOf call ++ (session.perform call).writes rest

/-!
## One evaluation
-/

theorem evaluate_cases (session : Session) (input : String) :
    (exists failure, (session.evaluate input).1.value = none ∧
        (session.evaluate input).1.failure = some failure ∧
        (session.evaluate input).2 = session) ∨
      exists value, (session.evaluate input).1.value = some value ∧
        (session.evaluate input).1.failure = none ∧
        (session.evaluate input).2 = session.keep value := by
  cases hprepare : session.prepare (normalise input) with
  | error failure =>
      left
      refine ⟨failure, ?_⟩
      simp [evaluate, hprepare, Outcome.blank]
  | ok outcome =>
      have hblank : outcome.value = none ∧ outcome.failure = none := by
        unfold prepare at hprepare
        split at hprepare
        · cases hprepare
        · cases hprepare
          exact ⟨rfl, rfl⟩
      cases hvalue : Expression.valueOf session.symbols outcome.tokens with
      | error failure =>
          left
          refine ⟨failure, ?_⟩
          simp [evaluate, hprepare, hvalue, hblank.left]
      | ok value =>
          right
          refine ⟨value, ?_⟩
          simp [evaluate, hprepare, hvalue, hblank.right]

theorem userConstant?_keep (session : Session) (value : Rat) (name : String) :
    (session.keep value).symbols.userConstant? name =
      if name = answerName then some value else session.symbols.userConstant? name := by
  split
  · rename_i hname
    subst hname
    exact SymbolTable.userConstant?_add_self _ _ _
  · rename_i hname
    exact SymbolTable.userConstant?_add_of_ne _ _ hname

end Session

theorem SymbolTable.constant?_of_userConstant? {table : SymbolTable} {name : String}
    {value : Rat} (h : table.userConstant? name = some value) :
    table.constant? name = some value := by
  simp [constant?, resolve?, h]

namespace Session

/-!
## What a call leaves
-/

theorem lastAnswer_perform (session : Session) (call : Call) :
    (session.perform call).lastAnswer =
      (Write.lastAnswer? (session.writesOf call)).getD session.lastAnswer := by
  cases call with
  | evaluate input =>
      rcases evaluate_cases session input with ⟨_, hvalue, _, hnext⟩ | ⟨value, hvalue, _, hnext⟩
      · simp [perform, writesOf, hvalue, hnext, Write.lastAnswer?]
      · simp [perform, writesOf, hvalue, hnext, Write.lastAnswer?, List.findSome?_cons, keep]
  | addConstant name value => rfl
  | setDigits digits => rfl

theorem userConstant?_perform (session : Session) (call : Call) (name : String) :
    (session.perform call).symbols.userConstant? name =
      ((Write.last? name (session.writesOf call)).map Write.value).or
        (session.symbols.userConstant? name) := by
  cases call with
  | evaluate input =>
      rcases evaluate_cases session input with ⟨_, hvalue, _, hnext⟩ | ⟨value, hvalue, _, hnext⟩
      · simp [perform, writesOf, hvalue, hnext, Write.last?]
      · simp only [perform, writesOf, hvalue, hnext, userConstant?_keep]
        by_cases hname : name = answerName
        · simp [Write.last?, Write.value, hname]
        · simp [Write.last?, hname, Ne.symm hname]
  | addConstant other value =>
      by_cases hname : name = boundName other
      · subst hname
        have hself : (session.perform (.addConstant other value)).symbols.userConstant?
            (boundName other) = some value :=
          SymbolTable.userConstant?_add_self _ _ _
        simp [hself, writesOf, Write.last?, Write.value]
      · have hother : (session.perform (.addConstant other value)).symbols.userConstant? name =
            session.symbols.userConstant? name :=
          SymbolTable.userConstant?_add_of_ne _ _ hname
        simp [hother, writesOf, Write.last?, Ne.symm hname]
  | setDigits digits => rfl

/-- The previous answer is the last one that the calls wrote. -/
theorem lastAnswer_after (session : Session) (calls : List Call) :
    (session.after calls).lastAnswer =
      (Write.lastAnswer? (session.writes calls)).getD session.lastAnswer := by
  induction calls generalizing session with
  | nil => rfl
  | cons call rest ih =>
      rw [after, ih, lastAnswer_perform, writes, Write.lastAnswer?_append]
      cases Write.lastAnswer? ((session.perform call).writes rest) <;> rfl

/-- A constant of the user has the value that the calls wrote to it last. -/
theorem userConstant?_after (session : Session) (calls : List Call) (name : String) :
    (session.after calls).symbols.userConstant? name =
      ((Write.last? name (session.writes calls)).map Write.value).or
        (session.symbols.userConstant? name) := by
  induction calls generalizing session with
  | nil => rfl
  | cons call rest ih =>
      rw [after, ih, userConstant?_perform, writes, Write.last?_append]
      cases Write.last? name ((session.perform call).writes rest) <;> rfl

/-!
## The history of a new session
-/

theorem userConstant?_new (name : String) :
    new.symbols.userConstant? name = if name = answerName then some 0 else none := by
  split
  · rename_i hname
    subst hname
    exact SymbolTable.userConstant?_add_self _ _ _
  · rename_i hname
    exact SymbolTable.userConstant?_add_of_ne _ _ hname

/-- An evaluation has a value or a failure. With a failure it leaves the session as
it was, and with a value it changes the previous answer and the constant `ans` and
nothing else. After any calls the previous answer is the last one, and each constant
holds the value of the last write to it; a new session has written zero to `ans`. -/
theorem history_of_calls (calls : List Call) (input : String) :
    let session := new.after calls
    let outcome := (session.evaluate input).1
    let next := (session.evaluate input).2
    ((exists failure, outcome.value = none ∧ outcome.failure = some failure ∧ next = session) ∨
        exists value, outcome.value = some value ∧ outcome.failure = none ∧
          next.lastAnswer = value ∧ next.digits = session.digits ∧
          next.symbols.constant? answerName = some value ∧
          forall name, name ≠ answerName ->
            next.symbols.userConstant? name = session.symbols.userConstant? name) ∧
      session.lastAnswer = (Write.lastAnswer? (new.writes calls)).getD 0 ∧
      forall name, session.symbols.userConstant? name =
        (Write.last? name (.constant answerName 0 :: new.writes calls)).map Write.value := by
  intro session outcome next
  refine ⟨?_, lastAnswer_after new calls, ?_⟩
  · rcases evaluate_cases session input with hfailed | ⟨value, hvalue, hfailure, hkeep⟩
    · exact .inl hfailed
    · right
      have hnext : next = session.keep value := hkeep
      have hanswer : next.symbols.userConstant? answerName = some value := by
        rw [hnext, userConstant?_keep, if_pos rfl]
      refine ⟨value, hvalue, hfailure, ?_, ?_, SymbolTable.constant?_of_userConstant? hanswer, ?_⟩
      · rw [hnext]
        rfl
      · rw [hnext]
        rfl
      · intro name hname
        rw [hnext, userConstant?_keep, if_neg hname]
  · intro name
    rw [← List.singleton_append, Write.last?_append, userConstant?_after, userConstant?_new]
    cases Write.last? name (new.writes calls) with
    | some write => rfl
    | none =>
        by_cases hname : name = answerName
        · simp [Write.last?, Write.value, hname]
        · simp [Write.last?, hname, Ne.symm hname]

/-!
## The two copies of the previous answer
-/

/-- The constant `ans` always has a value, and it is the previous answer unless the
last write to `ans` was a constant bound by hand to some other value. -/
theorem answer_copies_agree_iff (calls : List Call) :
    let session := new.after calls
    (exists value, session.symbols.constant? answerName = some value) ∧
      (session.symbols.constant? answerName = some session.lastAnswer ↔
        forall name value,
          Write.last? answerName (new.writes calls) = some (.constant name value) ->
          value = session.lastAnswer) := by
  intro session
  have hanswer : session.lastAnswer = (Write.lastAnswer? (new.writes calls)).getD 0 :=
    lastAnswer_after new calls
  have hconstant : session.symbols.userConstant? answerName =
      ((Write.last? answerName (new.writes calls)).map Write.value).or (some 0) :=
    userConstant?_after new calls answerName
  rcases Write.lastAnswer?_of_last? (new.writes calls) with ⟨hnone, hlast⟩
  cases hwrite : Write.last? answerName (new.writes calls) with
  | none =>
      rw [hwrite] at hconstant
      have hvalue := SymbolTable.constant?_of_userConstant? hconstant
      rw [hnone hwrite] at hanswer
      refine ⟨⟨_, hvalue⟩, ?_⟩
      simp [hvalue, hanswer]
  | some write =>
      rw [hwrite] at hconstant
      have hvalue := SymbolTable.constant?_of_userConstant? hconstant
      refine ⟨⟨_, hvalue⟩, ?_⟩
      cases write with
      | answer value =>
          rw [hlast value hwrite] at hanswer
          simp [hvalue, hanswer, Write.value]
      | constant name value => simp [hvalue, Write.value]

/-- After `ans` is bound by hand in a new session, the previous answer is still zero. -/
theorem answer_copies_differ :
    let session := new.after [.addConstant "ANS" 5]
    session.symbols.constant? answerName = some 5 ∧ session.lastAnswer = 0 := by
  decide +kernel

end Session
end AngleCalc
