import Kwiry.Foundations.Bytes

/-!
# Query Fields and Limits

The public fields a query can name, and the limits and profile ids that the query planner and
the rankers share.
-/

namespace Kwiry

open Foundations

def lexicalV1ProfileId : Text := "lexical-v1".toList
def lexicalV2ProfileId : Text := "lexical-v2".toList

def maxQueryBytes : ℕ := 4096
def maxTotalCandidates : ℕ := 512

/-- Fewer distinct sources than this from the standard lanes let the conditional ones run. -/
def minStandardSources : ℕ := 20

inductive QueryPublicField where
  | name | filename | title | alias | heading | tag | body
  deriving DecidableEq

end Kwiry
