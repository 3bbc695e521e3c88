import Workflow.Graph.Builder

/-!
# Sample graphs

In the first, a photo is split in two.  One half is described, and the
description is joined with the other half.  In the second, two images are
generated apart from each other, and one of them is changed before they are
joined.  In the third, a photo is split in two, and an edge leads from a third
slot to a generator, which does not read it.
-/

namespace Workflow.Graph

/-- The first sample graph; its nodes are not listed in the order of its edges. -/
def sample : Graph :=
  ({} : Graph)
    |>.collect "join" "all"
    |>.vision "caption" "describe"
    |>.fanOut "split" 2
    |>.input "photo"
    |>.edge "photo" "split"
    |>.edgeBetween "split" "out[1]" "caption" "image"
    |>.edgeBetween "split" "out[0]" "join" "in[1]"
    |>.edgeTo "caption" "join" "in[0]"

/-- The second sample graph, whose steps can be done in several orders. -/
def landscape : Graph :=
  ({} : Graph)
    |>.generator "sky" "paint" "a clear sky"
    |>.generator "sea" "paint" "a calm sea"
    |>.transform "dusk" "darken"
    |>.collect "scene" "available"
    |>.edge "sky" "dusk"
    |>.edgeTo "dusk" "scene" "in[0]"
    |>.edgeTo "sea" "scene" "in[1]"

/-- The third sample graph; one of its edges leaves a slot that is not there. -/
def adrift : Graph :=
  ({} : Graph)
    |>.input "photo"
    |>.fanOut "split" 2
    |>.generator "sea" "paint" "a calm sea"
    |>.edge "photo" "split"
    |>.edgeBetween "split" "out[2]" "sea" "in"

end Workflow.Graph
