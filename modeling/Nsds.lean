import Nsds.Akka.FaultTolerance
import Nsds.Akka.Lab2
import Nsds.Akka.Lab3.Lookups
import Nsds.Akka.Lab4.Echo
import Nsds.Akka.PubSub.HeldBack
import Nsds.Akka.PubSub.Printed
import Nsds.Akka.Sensors.Main
import Nsds.Akka.Sensors.RoundRobin
import Nsds.Contiki.Es1.Buffer
import Nsds.Contiki.Es3.Counter
import Nsds.Contiki.Es4.Connection
import Nsds.Contiki.Eval23.Average
import Nsds.Contiki.Eval23.Server
import Nsds.Contiki.SoftState
import Nsds.Kafka.AtMostOncePrinter.Proofs
import Nsds.Kafka.AtomicForwarder
import Nsds.Kafka.BasicConsumer
import Nsds.Kafka.BasicConsumerManual
import Nsds.Kafka.Lab1Es3C2
import Nsds.Kafka.Lab1Es4C2
import Nsds.Kafka.PopularTopicConsumer
import Nsds.Kafka.Transactional
import Nsds.Mpi.Ants.Arena
import Nsds.Mpi.Ants.Processes
import Nsds.Mpi.Average
import Nsds.Mpi.CharCount.Printed
import Nsds.Mpi.Deadlock
import Nsds.Mpi.Filter.Proofs
import Nsds.Mpi.Guess.Progress
import Nsds.Mpi.Guess.Winner
import Nsds.Mpi.LinearRoad.Draws
import Nsds.Mpi.LinearRoad.Progress
import Nsds.Mpi.MonteCarlo
import Nsds.Mpi.PingPong
import Nsds.Mpi.Ring
import Nsds.NodeRed.Bot.Changes
import Nsds.NodeRed.Bot.Counters
import Nsds.NodeRed.Echo
import Nsds.NodeRed.Maxima
import Nsds.Spark.Bank.Negative
import Nsds.Spark.Bank.Sheet
import Nsds.Spark.Bank.Tutorial
import Nsds.Spark.Enrichment
import Nsds.Spark.FriendsComputation
import Nsds.Spark.Group25
import Nsds.Spark.Growth
import Nsds.Spark.Investments
import Nsds.Spark.Regions
import Nsds.Spark.WordCounts
