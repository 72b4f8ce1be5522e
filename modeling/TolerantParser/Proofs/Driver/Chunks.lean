import TolerantParser.Proofs.Driver.Stream

/-! # Streams in chunks

A parse can be left unfinished behind any token and taken up again from the state that it came to.
`offerChunks` offers a stream in this way, chunk by chunk.  However the stream is cut, the outcome
and the tokens pulled are those of the stream in one piece (`offerChunks_eq`), and the parse of a
complete stream is its outcome too. -/

set_option autoImplicit false

namespace TolerantParser.Driver

variable {Env Value : Type} (d : Driver Env Value)

/-- Offers the chunks of a stream in order, each at the state that the one before it led to, until
they run out or one of them ends the parse.  The tokens are those that were pulled on the way. -/
def offerChunks : State Env → List (List Token) → Outcome Env Value × List Token
  | s, [] => (.intermediate s, [])
  | s, chunk :: chunks =>
    let fed := d.offerMany s chunk
    match fed.outcome with
    | .intermediate next =>
      let rest := offerChunks next chunks
      (rest.1, chunk.take fed.pulled ++ rest.2)
    | ended => (ended, chunk.take fed.pulled)

theorem offerChunks_cons_of_intermediate
    (s next : State Env)
    (chunk : List Token)
    (chunks : List (List Token))
    (fed : (d.offerMany s chunk).outcome = .intermediate next) :
    d.offerChunks s (chunk :: chunks)
      = ((d.offerChunks next chunks).1, chunk ++ (d.offerChunks next chunks).2) := by
  simp only [offerChunks, d.offerMany_of_intermediate s next chunk fed, List.take_length]

theorem offerChunks_cons_of_ended
    (s : State Env)
    (chunk : List Token)
    (chunks : List (List Token))
    (ended : (d.offerMany s chunk).outcome.isIntermediate = false) :
    d.offerChunks s (chunk :: chunks)
      = ((d.offerMany s chunk).outcome, chunk.take (d.offerMany s chunk).pulled) := by
  cases fed : (d.offerMany s chunk).outcome with
  | intermediate next => simp [fed, Outcome.isIntermediate] at ended
  | success p => simp only [offerChunks, fed]
  | error f => simp only [offerChunks, fed]

/-- It does not matter how a stream is cut.  The induction is on the chunks: a chunk that leaves the
parse unfinished is pulled as a whole, and behind one that ends it nothing is. -/
theorem offerChunks_eq
    (s : State Env)
    (chunks : List (List Token)) :
    d.offerChunks s chunks
      = ((d.offerMany s chunks.flatten).outcome,
          chunks.flatten.take (d.offerMany s chunks.flatten).pulled) := by
  induction chunks generalizing s with
  | nil => rfl
  | cons chunk chunks ih =>
    rw [List.flatten_cons]
    cases fed : (d.offerMany s chunk).outcome with
    | intermediate next =>
      rw [d.offerChunks_cons_of_intermediate s next chunk chunks fed, ih next,
        d.offerMany_append s next chunk chunks.flatten fed, List.take_length_add_append]
    | success _ | error _ =>
      have ended : (d.offerMany s chunk).outcome.isIntermediate = false := by rw [fed]; rfl
      rw [d.offerChunks_cons_of_ended s chunk chunks ended,
        d.offerMany_append_of_ended s chunk chunks.flatten ended,
        List.take_append_of_le_length (d.pulled_le_length s chunk)]

/-- A stream can be offered in chunks, empty ones and superfluous ones included: the outcome and the
tokens that are pulled are those of the stream in one piece.  And the parse of a complete stream
comes to the result of offering it from the start, or, if that leaves the parse unfinished, to an
error where the last token of the stream ended, whatever became of that token. -/
theorem offerChunks_and_parse_eq_offerMany :
    (∀ (s : State Env) (chunks : List (List Token)),
        d.offerChunks s chunks
          = ((d.offerMany s chunks.flatten).outcome,
              chunks.flatten.take (d.offerMany s chunks.flatten).pulled))
      ∧ ∀ (goal : Goal) (o : Offset) (ts : List Token),
          d.parse goal o ts
            = (d.initial goal o).map fun s =>
                (d.offerMany s ts).outcome.result?.getD
                  (.error (.incomplete (ts.getLast?.elim o (·.span.stop)))) := by
  refine ⟨d.offerChunks_eq, fun goal o ts => ?_⟩
  unfold parse
  congr 1
  funext s
  exact d.parseFrom_eq s o ts

end TolerantParser.Driver
