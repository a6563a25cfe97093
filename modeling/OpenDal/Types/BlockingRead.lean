import OpenDal.Types.RangeParsing
import OpenDal.Types.ReaderCursor

/-!
# What `BlockingReader::read` collects

The iterator of a range with a known end stands at a position and moves to the
end.  When the service serves the content, the collected buffers are the
content of the range; and whatever the service does, a `Cursor` that counts
the bytes says how many there are when the loop ends well.
-/

namespace OpenDal.BlockingReader

variable {R : Type} [Read R]

theorem flatMap_concat (bufs : List Buffer) (buf : Buffer) :
    (bufs ++ [buf]).flatMap Buffer.bytes =
      bufs.flatMap Buffer.bytes ++ buf.bytes := by
  simp

/-- The loop ends when the readers of the service do.  What it returns is right
and reaches to the end of the range, or something has failed.  Every round
moves the position or lowers the weight of the iterator. -/
theorem collect_settles {cursor : Cursor R} {ctx : ReadContext R}
    {stop position : Nat} {iter : BufferIterator R} (bufs : List Buffer)
    (finite : cursor.Finite) (opens : cursor.Opens ctx stop)
    (stands : iter.inner.toStreaming.Stands cursor ctx stop position) :
    ∃ fuel result, collect fuel bufs iter = some result ∧
      (∀ err, result = .error err → Blamed cursor neverFails ctx stop err) ∧
      ∀ buf, result = .ok buf → ∃ bytes, cursor.piece position bytes ∧
        position + bytes.length = stop ∧
        buf.bytes = bufs.flatMap Buffer.bytes ++ bytes := by
  induction measured : stop - position + iter.inner.toStreaming.weight
    using Nat.strong_induction_on generalizing position iter bufs with
  | _ measure induction =>
      subst measured
      cases round : iter.nextRound with
      | mk later progress =>
          have polled : BufferSource.next iter = some (later, progress) :=
            congrArg some round
          obtain ⟨lighter, light⟩ :=
            BufferIterator.next_weight stands.ends polled
          cases BufferIterator.nextRound_outcome opens stands round with
          | suspended kept =>
              have lower := Nat.add_lt_add_left (lighter rfl) (stop - position)
              obtain ⟨fuel, result, collected, right⟩ :=
                induction _ lower bufs kept rfl
              refine ⟨fuel + 1, result, ?_, right⟩
              simpa only [collect, round] using collected
          | @piece buf nonempty right moved =>
              have inside := moved.position_le finite
              have positive := Buffer.len_pos nonempty
              have bound := light buf rfl
              have fewer : stop - (position + buf.len) +
                  later.inner.toStreaming.weight <
                  stop - position + iter.inner.toStreaming.weight := by omega
              obtain ⟨fuel, result, collected, blames, rest⟩ :=
                induction _ fewer (bufs ++ [buf]) moved rfl
              refine ⟨fuel + 1, result, ?_, blames, ?_⟩
              · simpa only [collect, round] using collected
              · intro whole returned
                obtain ⟨bytes, piece, reaches, equal⟩ := rest whole returned
                rw [← Buffer.length_bytes] at piece reaches
                refine ⟨buf.bytes ++ bytes, cursor.piece_append right piece,
                  ?_, ?_⟩
                · rw [List.length_append, ← Nat.add_assoc]
                  exact reaches
                · rw [equal, flatMap_concat, List.append_assoc]
          | ended finished _ =>
              refine ⟨1, .ok (Buffer.flatten bufs), ?_, ?_, ?_⟩
              · simp only [collect, round]
              · intro err impossible
                cases impossible
              · intro whole returned
                cases returned
                exact ⟨[], cursor.piece_nil position, finished, by simp⟩
          | @failed err blamed =>
              refine ⟨1, .error err, ?_, ?_, ?_⟩
              · simp only [collect, round]
              · intro other same
                cases same
                exact blamed
              · intro whole returned
                cases returned

/-- What a counting cursor says about a loop that has ended well. -/
theorem collect_exact {cursor : Cursor R} {ctx : ReadContext R}
    {stop position fuel : Nat} {iter : BufferIterator R}
    {bufs : List Buffer} {buf : Buffer} (opens : cursor.Opens ctx stop)
    (stands : iter.inner.toStreaming.Stands cursor ctx stop position)
    (collected : collect fuel bufs iter = some (.ok buf)) :
    position + buf.len = stop + (bufs.flatMap Buffer.bytes).length := by
  induction fuel generalizing iter bufs position with
  | zero => cases collected
  | succ fuel induction =>
      cases round : iter.nextRound with
      | mk later progress =>
          unfold collect at collected
          rw [round] at collected
          cases BufferIterator.nextRound_outcome opens stands round with
          | suspended kept => exact induction kept collected
          | @piece piece nonempty right moved =>
              have ended := induction moved collected
              rw [flatMap_concat, List.length_append, Buffer.length_bytes]
                at ended
              omega
          | ended finished _ =>
              cases collected
              rw [← Buffer.length_bytes, Buffer.bytes_flatten]
              omega
          | failed blamed => cases collected

end OpenDal.BlockingReader
