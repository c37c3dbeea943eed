import QuantumSentinel.Exchange.Book

/-!
# Paper exchange: feed validation

`validate_events` of `market_microstructure.py`: a stream is replayed through a
book of its own, and every violation of a market-data invariant is an issue.

Main results:

- Definition `validateEvents`: the issues of a stream.
- Theorem `validateEvents_length`: a report exceeds the limit by at most two.

Current gaps:

- Prices and sizes are rationals, so no value is infinite or not a number.
- An issue holds the data its text is printed from.
-/

namespace QuantumSentinel.Exchange

open Lib

/-- What `validate_events` reports about the event at an index. -/
inductive FeedIssue
  /-- price must be finite and positive (got …) -/
  | price (index : ℕ) (price : ℚ)
  /-- invalid size … for … -/
  | size (index : ℕ) (size : ℚ) (eventType : BookEventType)
  /-- timestamp … is earlier than the previous event -/
  | timestamp (index : ℕ) (timestamp : ℚ)
  /-- duplicate order id … -/
  | duplicate (index : ℕ) (orderId : String)
  /-- book crossed or locked (bid … >= ask …) -/
  | crossed (index : ℕ) (bid ask : ℚ)
deriving DecidableEq, Repr

/-- The local variables of the loop. -/
structure FeedCheck where
  issues : List FeedIssue
  book : OrderBook
  seenIds : List String
  lastTs : Option ℚ

namespace FeedCheck

variable (c : FeedCheck)

/-- `issues.append` under a condition. -/
def reportIf (condition : Bool) (issue : FeedIssue) : FeedCheck :=
  { c with issues := c.issues ++ if condition then [issue] else [] }

/-- Whether the size of an event is valid. -/
def validSize (event : BookEvent) : Bool :=
  0 ≤ event.size && !(decide (event.eventType = .trade) && decide (event.size ≤ 0))

/-- The timestamp check; `last_ts` starts at minus infinity. -/
def checkTimestamp (index : ℕ) (event : BookEvent) : FeedCheck :=
  { c.reportIf (c.lastTs.any fun last => event.timestamp < last)
      (.timestamp index event.timestamp) with
    lastTs := some (c.lastTs.elim event.timestamp fun last => max last event.timestamp) }

/-- The check that ADD ids are unique. -/
def checkDuplicate (index : ℕ) (event : BookEvent) : FeedCheck :=
  if event.eventType = .add then
    match event.named with
    | none => c
    | some id => { c.reportIf (id ∈ c.seenIds) (.duplicate index id) with
        seenIds := id :: c.seenIds }
  else
    c

/-- The book after the event must be neither crossed nor locked. -/
def checkCrossed (index : ℕ) : FeedCheck :=
  match c.book.bestBid, c.book.bestAsk with
  | some bid, some ask => c.reportIf (ask ≤ bid) (.crossed index bid ask)
  | _, _ => c

/-- One pass through the loop. -/
def checkEvent (index : ℕ) (event : BookEvent) (uuid : HexId) : FeedCheck :=
  if event.price ≤ 0 then
    c.reportIf true (.price index event.price)
  else if !validSize event then
    c.reportIf true (.size index event.size event.eventType)
  else
    let checked := (c.checkTimestamp index event).checkDuplicate index event
    { checked with book := (checked.book.applyMarketEvent event uuid).1 }.checkCrossed index

end FeedCheck

/-- The loop of `validate_events` from an index on; it stops at `max_issues`. -/
def validateFrom (maxIssues : ℕ) (uuids : ℕ → HexId) :
    ℕ → List BookEvent → FeedCheck → FeedCheck
  | _, [], c => c
  | index, event :: rest, c =>
    if maxIssues ≤ c.issues.length then
      c
    else
      validateFrom maxIssues uuids (index + 1) rest (c.checkEvent index event (uuids index))

/-- `validate_events`. -/
def validateEvents (grid : TickGrid) (maxIssues : ℕ) (uuids : ℕ → HexId)
    (events : List BookEvent) : List FeedIssue :=
  (validateFrom maxIssues uuids 0 events ⟨[], OrderBook.empty grid "", [], none⟩).issues

/-! ## The number of issues -/

theorem reportIf_length (c : FeedCheck) (condition : Bool) (issue : FeedIssue) :
    (c.reportIf condition issue).issues.length ≤ c.issues.length + 1 := by
  cases condition <;> simp [FeedCheck.reportIf]

/-- One event brings at most three issues. -/
theorem checkEvent_length (c : FeedCheck) (index : ℕ) (event : BookEvent) (uuid : HexId) :
    (c.checkEvent index event uuid).issues.length ≤ c.issues.length + 3 := by
  have htime : (c.checkTimestamp index event).issues.length ≤ c.issues.length + 1 :=
    reportIf_length c _ _
  have hdup : ∀ c' : FeedCheck, (c'.checkDuplicate index event).issues.length ≤
      c'.issues.length + 1 := by
    intro c'
    unfold FeedCheck.checkDuplicate
    split
    · cases event.named with
      | none => exact Nat.le_succ _
      | some id => exact reportIf_length c' _ _
    · exact Nat.le_succ _
  have hcross : ∀ c' : FeedCheck, (c'.checkCrossed index).issues.length ≤
      c'.issues.length + 1 := by
    intro c'
    unfold FeedCheck.checkCrossed
    split
    · exact reportIf_length c' _ _
    · exact Nat.le_succ _
  unfold FeedCheck.checkEvent
  split
  · exact (reportIf_length c _ _).trans (by omega)
  · split
    · exact (reportIf_length c _ _).trans (by omega)
    · have h₂ := hdup (c.checkTimestamp index event)
      refine (hcross _).trans ?_
      simp only
      omega

/-- The loop stops within two issues of the limit. -/
theorem validateFrom_length (maxIssues : ℕ) (uuids : ℕ → HexId) (index : ℕ)
    (events : List BookEvent) (c : FeedCheck) (h : c.issues.length ≤ maxIssues + 2) :
    (validateFrom maxIssues uuids index events c).issues.length ≤ maxIssues + 2 := by
  induction events generalizing index c with
  | nil => exact h
  | cons event rest ih =>
    simp only [validateFrom]
    split
    · exact h
    · rename_i hlt
      apply ih
      have hstep := checkEvent_length c index event (uuids index)
      omega

/-- A report exceeds `max_issues` by at most two. -/
theorem validateEvents_length (grid : TickGrid) (maxIssues : ℕ) (uuids : ℕ → HexId)
    (events : List BookEvent) :
    (validateEvents grid maxIssues uuids events).length ≤ maxIssues + 2 :=
  validateFrom_length _ _ _ _ _ (Nat.zero_le _)

end QuantumSentinel.Exchange
