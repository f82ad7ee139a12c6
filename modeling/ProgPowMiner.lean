import ProgPowMiner.Work
import ProgPowMiner.Hex
import ProgPowMiner.Binary64
import ProgPowMiner.Cuda.Search
import ProgPowMiner.Cuda.Pipeline
import ProgPowMiner.Cuda.WorkLoop
import ProgPowMiner.Cuda.DagLoad
import ProgPowMiner.Cuda.NonceSpace
import ProgPowMiner.Stratum.Json
import ProgPowMiner.Stratum.Client
import ProgPowMiner.Stratum.Response
import ProgPowMiner.Stratum.Notify
import ProgPowMiner.Stratum.Target
import ProgPowMiner.Stratum.Link
import ProgPowMiner.Stratum.Write
import ProgPowMiner.Cuda.Kick
import ProgPowMiner.Cuda.Sequential
import ProgPowMiner.Stratum.Login
import ProgPowMiner.Cuda.Attribution
import ProgPowMiner.Cuda.Configure
import ProgPowMiner.Stratum.Reachable
import ProgPowMiner.Stratum.Submit
import ProgPowMiner.Stratum.Lifecycle
